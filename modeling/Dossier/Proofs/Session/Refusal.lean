import Dossier.Proofs.Session.Watchdog
import Mathlib

/-!
Operations after the end of the transaction. Whatever an operation asks of storage is refused before storage hears
of it. A type that the session has looked up is answered without storage, and here an operation still succeeds.
Main statement: after every script that ends the transaction, all operations but the lookup of a known type fail, ask
nothing of storage and leave the session as it is.
-/

namespace Dossier

/-- The requests that need an open transaction: all but the fetches and the number of subscriptions. -/
def Request.isOperation : Request → Bool
  | .fetch | .fetchSingle | .fetchFirst | .subscriptions _ => false
  | _ => true

namespace Session

/-- What is known of the type that a request asks for: its record, or that it has none. -/
def knownType (s : Session) : Request → Option (Option Json)
  | .getType name => s.types.lookup name
  | _ => none

/-- The watchdog stops when the transaction is over. -/
def Stopped (s : Session) : Prop := s.phase.isFinal = true → s.alarm = none

/-- Work that fails and changes nothing. -/
def Refuses (s : Session) (w : Work α) : Prop := ∃ fault, w.run s = (.error fault, s)

variable {α β : Type} {s : Session}

/-! ### The watchdog stops -/

theorem stopped_of_active (hactive : s.phase = .active) : Stopped s := by
  intro hfinal
  rw [hactive] at hfinal
  cases hfinal

theorem alarm_perform (request : Call) (s : Session) : (s.perform request).2.alarm = s.alarm := by
  obtain ⟨connection, notices, now, hperform, -⟩ := exists_perform request s
  rw [hperform]

theorem alarm_expire (moment : Nat) (s : Session) : (s.expire moment).alarm = none :=
  (alarm_perform .disconnect _).trans (alarm_perform .rollback _)

/-- A turn of the watchdog on an open transaction leaves it open, or is its last. -/
theorem stopped_turn (moment : Nat) (hactive : s.phase = .active) : Stopped (s.turn moment) := by
  unfold turn
  split
  · exact stopped_of_active hactive
  · split
    · exact fun _ => rfl
    · split
      · exact stopped_of_active hactive
      · exact fun _ => alarm_expire moment s

theorem stopped_elapse (wake turns : Nat) (h : Stopped s) : Stopped (s.elapse wake turns) := by
  induction turns generalizing s with
  | zero => exact h
  | succ turns ih =>
      unfold elapse
      split
      · rename_i moment halarm
        split
        · refine ih (stopped_turn moment (Phase.eq_active_of_not_isFinal fun hfinal => ?_))
          cases halarm.symm.trans (h hfinal)
        · exact h
      · exact h

theorem stopped_finish (ending : Ending) (h : Stopped s) : Stopped ((finish ending).run s).2 := by
  cases hrefused : s.phase.isFinal || s.finishing with
  | true =>
      rw [run_finish_refused hrefused]
      exact h
  | false =>
      rw [Bool.or_eq_false_iff] at hrefused
      have hactive := Phase.eq_active_of_not_isFinal (Bool.eq_false_iff.mp hrefused.1)
      obtain ⟨deadline, alarm, -, -, hrun⟩ := run_finish ending hactive hrefused.2
      rw [hrun]
      split
      · exact stopped_of_active ((phase_perform _ _).trans hactive)
      · intro _
        rw [run_closing]
        refine (sameCourse_sample _ _ _).alarm.trans ((sameCourse_sample _ _ _).alarm.trans ?_)
        cases ending with
        | disconnect => exact (sameCourse_sample _ _ _).alarm
        | commit | rollback => exact (alarm_perform .disconnect _).trans (sameCourse_sample _ _ _).alarm

theorem stopped_happen (circumstance : Circumstance) (h : Stopped s) : Stopped (s.happen circumstance) := by
  cases circumstance with
  | sleep duration => exact fun hfinal => stopped_elapse _ _ h hfinal
  | announce notification =>
      unfold happen
      dsimp only
      split
      · obtain ⟨notices, hdeliver⟩ := exists_deliver [notification] s
        rw [hdeliver]
        exact h
      · exact h
  | _ => exact h

theorem carries_stopped : Carries fun s next => Stopped s → Stopped next :=
  Admits.carries {
    refl _ h := h
    trans hab hbc h := hbc (hab h)
    route _ _ h := h
    call _ _ hactive _ _ := stopped_of_active ((phase_perform _ _).trans hactive)
    aside hcourse h hfinal := hcourse.alarm.trans (h (hcourse.phase ▸ hfinal))
    touch _ h := h
    watch _ h := stopped_elapse _ _ h
    finish ending _ h := stopped_finish ending h
    happen circumstance _ h := stopped_happen circumstance h }

/-! ### Refused work -/

namespace Refuses

/-- What refused work would have led to does not happen. -/
theorem bind {w : Work α} {f : α → Work β} (h : Refuses s w) : Refuses s (w >>= f) := by
  obtain ⟨fault, hrun⟩ := h
  exact ⟨fault, by rw [run_bind, hrun]⟩

/-- Work that changes nothing, before work that is refused. -/
theorem after {w : Work α} {f : α → Work β} (hw : (w.run s).2 = s) (hf : ∀ a, Refuses s (f a)) :
    Refuses s (w >>= f) := by
  rcases hrun : w.run s with ⟨answer, next⟩
  obtain rfl : next = s := by rwa [hrun] at hw
  cases answer with
  | error fault => exact ⟨fault, by rw [run_bind, hrun]⟩
  | ok a =>
      obtain ⟨fault, hfault⟩ := hf a
      exact ⟨fault, by rw [run_bind, hrun]; exact hfault⟩

end Refuses

section

variable (hfinal : s.phase.isFinal = true)

include hfinal

theorem refuses_run {operation : Operation} {statement : Option (String × List Json)} {work : Work α} :
    Refuses s (run operation statement work) := by
  refine .bind ⟨.wrongPhase s.phase operation, ?_⟩
  rw [run_ensureOpen, if_pos hfinal]

theorem refuses_select (target : Target) (filter : Json) (traits : Traits) : Refuses s (select target filter traits) :=
  .after rfl fun _ => .after rfl fun _ => .bind (refuses_run hfinal)

theorem refuses_lookup (kind : Kind) (key text : String) : Refuses s (lookup kind key text) :=
  .after rfl fun _ => .bind (refuses_select hfinal _ _ _)

/-- A known type is told, an unknown one would have to be asked for. -/
theorem run_lookupType (name : String) :
    (∃ fault, (lookupType name).run s = (.error fault, s) ∧ s.types.lookup name = none) ∨
      ∃ found, (lookupType name).run s = (.ok found, s) ∧ s.types.lookup name = some found := by
  unfold lookupType
  rw [run_bind, run_get]
  dsimp only
  cases s.types.lookup name with
  | some found => exact .inr ⟨found, rfl, rfl⟩
  | none =>
      obtain ⟨fault, hfault⟩ := refuses_lookup hfinal .type "$name" name
      exact .inl ⟨fault, by rw [run_bind, hfault], rfl⟩

theorem lookupType_snd (name : String) : ((lookupType name).run s).2 = s := by
  rcases run_lookupType hfinal name with ⟨fault, hrun, -⟩ | ⟨found, hrun, -⟩ <;> rw [hrun]

theorem typeSchema_snd (name : String) : ((typeSchema name).run s).2 = s :=
  (run_bind_pure _ _ s).trans (lookupType_snd hfinal name)

theorem refuses_selectResult (kind : Kind) (schema : Schema) (filter : Json) (traits : Traits) :
    Refuses s (selectResult kind schema filter traits) :=
  .after rfl fun _ => .bind (refuses_select hfinal _ _ _)

/-- A known schema is of no use to a search. -/
theorem refuses_search (kind : Kind) (filter : Json) (traits : Traits) : Refuses s (search kind filter traits) := by
  unfold search
  split
  · exact .after (typeSchema_snd hfinal _) fun _ => refuses_selectResult hfinal _ _ _ _
  · exact .after rfl fun _ => refuses_selectResult hfinal _ _ _ _

theorem refuses_create (kind : Kind) (record : Json) : Refuses s (create kind record) :=
  .after rfl fun _ => .after rfl fun _ => .bind (refuses_run hfinal)

/-- A new identity is made before the document is refused. -/
theorem run_createDocument (typeName : String) (content : Json) :
    ∃ fault identities, (createDocument typeName content).run s = (.error fault, { s with identities }) := by
  unfold createDocument
  rw [run_bind, run_attempt]
  cases asObject content with
  | error fault => exact ⟨fault, _, rfl⟩
  | ok record =>
      dsimp only
      split
      · obtain ⟨fault, hrun⟩ := refuses_create hfinal .document
          (.object (Members.insert "type" (.string typeName) record))
        exact ⟨fault, _, hrun⟩
      · have hfresh : freshIdentity.run s =
            (.ok (Identity.fresh .session s.identities), { s with identities := s.identities + 1 }) := rfl
        generalize hnamed : ({ s with identities := s.identities + 1 } : Session) = named at hfresh
        have hover : named.phase.isFinal = true := hnamed ▸ hfinal
        rw [run_bind, hfresh]
        dsimp only
        obtain ⟨fault, hrun⟩ := refuses_create hover .document (.object (Members.insert "type" (.string typeName)
          (Members.insert identityName (.string (Identity.fresh .session s.identities)) record)))
        exact ⟨fault, s.identities + 1, hnamed ▸ hrun⟩

theorem refuses_createType (name : String) (schema metadata : Json) : Refuses s (createType name schema metadata) := by
  unfold createType
  split
  · exact .after rfl fun _ => .bind (refuses_create hfinal _ _)
  · exact .after rfl fun _ => .bind (refuses_create hfinal _ _)

theorem refuses_update (kind : Kind) (record : Json) : Refuses s (update kind record) := by
  refine .after rfl fun changes => ?_
  split
  · exact ⟨_, rfl⟩
  · exact .bind (refuses_lookup hfinal _ _ _)

theorem refuses_finish (ending : Ending) : Refuses s (finish ending) :=
  ⟨_, run_finish_refused (by rw [hfinal, Bool.true_or])⟩

/-! ### Requests -/

/-- Only the lookup of a known type succeeds. -/
theorem run_answerRequest {request : Request} (hoperation : request.isOperation = true) :
    match s.knownType request with
    | some found => (answerRequest request).run s =
        (.ok (.value found), { s with queue := s.queue ++ [found.getD .null] })
    | none => ∃ fault identities, (answerRequest request).run s = (.error fault, { s with identities }) := by
  have hrefused : ∀ {w : Work Reply}, Refuses s w →
      ∃ fault identities, w.run s = (.error fault, { s with identities }) :=
    fun ⟨fault, hrun⟩ => ⟨fault, s.identities, hrun⟩
  cases request with
  | execute sql params => exact hrefused (.bind (.bind (refuses_run hfinal)))
  | create kind record => exact hrefused (.bind (refuses_create hfinal _ _))
  | createDocument typeName content =>
      obtain ⟨fault, identities, hrun⟩ := run_createDocument hfinal typeName content
      exact ⟨fault, identities, by rw [answerRequest, run_bind, hrun]⟩
  | createType name schema metadata => exact hrefused (.bind (refuses_createType hfinal _ _ _))
  | read kind id => exact hrefused (.bind (.bind (refuses_lookup hfinal _ _ _)))
  | search kind filter traits => exact hrefused (.bind (refuses_search hfinal _ _ _))
  | searchDocuments typeName filter traits =>
      exact hrefused (.bind (.after (typeSchema_snd hfinal _) fun _ => refuses_selectResult hfinal _ _ _ _))
  | count kind filter => exact hrefused (.bind (.bind (refuses_search hfinal _ _ _)))
  | update kind record => exact hrefused (.bind (refuses_update hfinal _ _))
  | delete kind id => exact hrefused (.bind (.bind (refuses_run hfinal)))
  | getType name =>
      rcases run_lookupType hfinal name with ⟨fault, hrun, hunknown⟩ | ⟨found, hrun, hknown⟩
      · rw [knownType, hunknown]
        exact hrefused (.bind (.bind ⟨fault, hrun⟩))
      · rw [knownType, hknown]
        dsimp only
        rw [answerRequest, run_bind, getType, run_bind, hrun]
        rfl
  | subscribe event => exact hrefused (.bind (refuses_run hfinal))
  | unsubscribe event => exact hrefused (.bind (refuses_run hfinal))
  | finish ending => exact hrefused (.bind (refuses_finish hfinal _))
  | subscriptions | fetch | fetchSingle | fetchFirst => cases hoperation

end

/-- **Ended sessions refuse.** However the transaction ended, an operation fails and changes no more than the number of
identities made, unless it looks up a known type: that is answered, and the answer is queued. -/
theorem refuses_after_end {settings : Settings} {connection : Connection} {attentive : Bool}
    (hstart : start settings connection attentive = .ok s) (script : List Step)
    (hended : (s.after script).phase ≠ .active) {request : Request} (hoperation : request.isOperation = true) :
    let reached := s.after script
    (reached.knownType request = none →
      ∃ fault identities, reached.step (.request request) = (.error fault, { reached with identities })) ∧
    ∀ found, reached.knownType request = some found →
      reached.step (.request request) =
        (.ok (.value found), { reached with queue := reached.queue ++ [found.getD .null] }) := by
  intro reached
  have hfinal : reached.phase.isFinal = true := bne_iff_ne.mpr hended
  obtain ⟨begun, hbegun, -⟩ := exists_opened hstart
  change s = _ at hbegun
  have hopened : Stopped s := hbegun ▸ stopped_elapse _ _ (stopped_of_active rfl)
  have hstopped : reached.alarm = none := carries_stopped.after script s hopened hfinal
  have hanswer := run_answerRequest hfinal hoperation
  refine ⟨fun hunknown => ?_, fun found hknown => ?_⟩
  · rw [hunknown] at hanswer
    obtain ⟨fault, identities, hrun⟩ := hanswer
    refine ⟨fault, identities, ?_⟩
    rw [step, hrun]
    exact congrArg (Prod.mk _) (elapse_stopped hstopped)
  · rw [hknown] at hanswer
    rw [step, hanswer]
    exact congrArg (Prod.mk _) (elapse_stopped hstopped)

/-- A session whose transaction timed out while it waited. -/
theorem refuses_after_end_timeout :
    let script : List Step := [.circumstance (.sleep 30000)]
    let request : Request := .createDocument "User" (.object [("name", .string "Ada")])
    ∃ s, start Settings.default (.ofBackend (.scripted [])) true = .ok s ∧ (s.after script).phase ≠ .active ∧
      ∃ fault identities, (s.after script).step (.request request) = (.error fault, { s.after script with identities })
    := by
  intro script request
  generalize hopened : (opened Settings.default _ true).watch = s
  have hstart : start Settings.default (.ofBackend (.scripted [])) true = .ok s := congrArg Except.ok hopened
  have hended : (s.after script).phase ≠ .active := by
    subst hopened
    decide
  exact ⟨s, hstart, hended, (refuses_after_end hstart script hended rfl).1 rfl⟩

/-- A type that was created is still told after the commit, and told in the queue as well. -/
theorem known_type_answered_after_commit :
    let record : Row := [("id", .string "t1"), ("name", .string "User"), ("schema", .object [])]
    let script : List Step := [.circumstance (.answer (.ok [record])),
      .request (.createType "User" (.object []) .null), .request (.finish .commit)]
    ∃ s, start Settings.default (.ofBackend (.scripted [])) true = .ok s ∧
      (s.after script).phase = .committed ∧ (s.after script).queue = [.object record] ∧
      ((s.after script).step (.request (.getType "User"))).1.isOk = true ∧
      ((s.after script).step (.request (.getType "User"))).2.queue = [.object record, .object record] := by
  intro record script
  refine ⟨_, rfl, ?_, ?_, ?_, ?_⟩ <;> cbv

end Session

end Dossier
