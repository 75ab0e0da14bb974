import Dossier.Proofs.Session.Dialogue

/-!
Statements during which the deadline passes. The watchdog ends the transaction while storage is still busy, and
whatever storage answers then comes too late. Main statement: the operation fails there, asks nothing more, and leaves
results and caches as they were when it asked.
-/

namespace Dossier.Session

variable {α : Type} {timeout since : Nat} {s next last : Session} {storage : Stream' Conduct} {w : Work α}
  {asked : List Issue} {result : Except Fault α}

/-- The deadline has passed when storage answers. -/
def Issue.Overdue (issue : Issue) : Prop :=
  issue.session.deadline ≤ (issue.session.perform issue.inquiry.call).2.now

/-- The statement is the end of the operation. Only the watchdog calls storage after it, and nothing of its answer is
kept. -/
structure Issue.Ends (issue : Issue) (result : Except Fault α) (last : Session) : Prop where
  result : result = .error (.wrongPhase .rolledBack issue.inquiry.operation)
  log : last.connection.log = issue.session.connection.log ++ [issue.inquiry.call, .rollback, .disconnect]
  queue : last.queue = issue.session.queue
  types : last.types = issue.session.types
  entities : last.entities = issue.session.entities

/-- A statement takes the delay of storage, whatever storage answers. -/
theorem Issue.overdue_iff {issue : Issue} : issue.Overdue ↔
    issue.session.deadline ≤ issue.session.now + issue.session.connection.delay := by
  obtain ⟨notices, hdeliver⟩ := exists_deliver (issue.session.connection.perform issue.inquiry.call).2.sent
    { issue.session with
      connection := (issue.session.connection.perform issue.inquiry.call).1
      now := issue.session.now + issue.session.connection.delay }
  have hnow : (issue.session.perform issue.inquiry.call).2.now =
      issue.session.now + issue.session.connection.delay := congrArg (·.now) hdeliver
  rw [Overdue, hnow]

/-! ### One statement -/

/-- A look of the watchdog leaves the calls as they are, or ends the open transaction with two more. -/
theorem log_watch_cases (s : Session) :
    s.watch.phase = s.phase ∧ s.watch.connection.log = s.connection.log ∨
      s.phase = .active ∧ s.watch.phase = .rolledBack ∧
        s.watch.connection.log = s.connection.log ++ [.rollback, .disconnect] := by
  refine elapse_induction (R := fun s next => next.phase = s.phase ∧ next.connection.log = s.connection.log ∨
      s.phase = .active ∧ next.phase = .rolledBack ∧
        next.connection.log = s.connection.log ++ [.rollback, .disconnect])
    (fun _ => .inl ⟨rfl, rfl⟩) ?_ (fun _ _ _ _ _ => .inl ⟨rfl, rfl⟩) (fun moment s hactive => .inr ?_)
    s.now (s.now + 1) s
  · rintro a b c (⟨hphase, hlog⟩ | ⟨hactive, hphase, hlog⟩) (⟨hphase', hlog'⟩ | ⟨hactive', hphase', hlog'⟩)
    · exact .inl ⟨hphase'.trans hphase, hlog'.trans hlog⟩
    · exact .inr ⟨hphase ▸ hactive', hphase', hlog ▸ hlog'⟩
    · exact .inr ⟨hactive, hphase'.trans hphase, hlog'.trans hlog⟩
    · cases hphase.symm.trans hactive'
  · let marked : Session :=
      { s with phase := .rolledBack, notices := s.notices ++ [Notice.timeout moment], alarm := none }
    have hmade := (made_perform .rollback marked).append (made_perform .disconnect (marked.perform .rollback).2)
    refine ⟨hactive, ?_, hmade.1⟩
    change ((marked.perform .rollback).2.perform .disconnect).2.phase = .rolledBack
    rw [phase_perform, phase_perform]

theorem overlooks_entities : Overlooks fun s next => next.entities = s.entities where
  refl _ := rfl
  trans hab hbc := hbc.trans hab
  course _ _ _ _ _ _ _ _ _ _ := rfl
  call s request _ := by
    obtain ⟨connection, notices, now, hperform, -⟩ := exists_perform request s
    rw [hperform]

theorem entities_query (operation : Operation) (sql : String) (params : List Json) (s : Session) :
    ((query operation sql params).run s).2.entities = s.entities := by
  refine overlooks_entities.query (fun s sql params => ?_) operation sql params s
  obtain ⟨connection, notices, now, hperform, -⟩ := exists_perform (.query sql params) s
  rw [hperform]

/-- What is done on an open session is lost when it takes too long, whatever it is: the watchdog has ended the
transaction. -/
theorem Ticking.run_late {work : Work α} (h : Ticking timeout since s) (hwork : Ticking timeout since (work.run s).2)
    (hlate : s.deadline ≤ (work.run s).2.now) (operation : Operation) (statement : Option (String × List Json)) :
    let ran := (run operation statement work).run s
    ran.1 = .error (.wrongPhase .rolledBack operation) ∧
      ran.2.connection.log = (work.run s).2.connection.log ++ [.rollback, .disconnect] := by
  have hcourse := sameCourse_sample operation.name statement (work.run s).2
  have hticking := hwork.sameCourse hcourse
  rw [run_run h.active]
  generalize (work.run s).2.sample operation.name statement = sampled at hcourse hticking ⊢
  have hphase : sampled.watch.touch.phase = .rolledBack := by
    rcases hticking.elapse (Nat.le_refl _) with ⟨hwait, -, -⟩ | hexpired
    · have hdue : since + timeout ≤ sampled.now := by
        rw [← h.deadline, hcourse.now]
        exact hlate
      exact absurd hwait (Nat.not_lt.mpr hdue)
    · exact hexpired.phase
  rcases log_watch_cases sampled with ⟨hstill, -⟩ | ⟨-, -, hlog⟩
  · cases (hstill.symm.trans hphase).symm.trans hticking.active
  · rw [hcourse.connection] at hlog
    refine ⟨?_, hlog⟩
    dsimp only
    rw [hphase, if_pos (by decide)]

/-- A query is one call. -/
theorem exists_query (operation : Operation) (sql : String) (params : List Json) :
    ∃ work, query operation sql params = run operation (some (sql, params)) work ∧
      ∀ s, (work.run s).2 = (s.perform (.query sql params)).2 := by
  refine ⟨_, rfl, fun s => ?_⟩
  rw [run_bind, run_call]
  cases (s.perform (.query sql params)).1 <;> rfl

/-- An overdue statement fails, whatever storage answers. -/
theorem Ticking.ends_of_overdue {issue : Issue} (h : Ticking timeout since issue.session) (hoverdue : issue.Overdue) :
    issue.Ends (issue.inquiry.ask.run issue.session).1 (issue.inquiry.ask.run issue.session).2 := by
  obtain ⟨⟨operation, sql, params⟩, s⟩ := issue
  obtain ⟨work, hquery, hwork⟩ := exists_query operation sql params
  have hlog : (work.run s).2.connection.log = s.connection.log ++ [.query sql params] := by
    rw [hwork]
    exact (made_perform (.query sql params) s).1
  obtain ⟨hresult, hover⟩ := h.run_late (hwork s ▸ h.perform _) (hwork s ▸ hoverdue) operation (some (sql, params))
  obtain ⟨hqueue, htypes⟩ := Unheld.query operation sql params s
  have hask : Inquiry.ask ⟨operation, sql, params⟩ = run operation (some (sql, params)) work := hquery
  refine ⟨hask ▸ hresult, ?_, hqueue, htypes, entities_query operation sql params s⟩
  rw [hask]
  exact hover.trans (by rw [hlog, List.append_assoc]; rfl)

/-- A statement that is answered in time is activity. -/
theorem Ticking.answered {inquiry : Inquiry} {rows : List Row} (h : Ticking timeout since s)
    (hrun : inquiry.ask.run s = (.ok rows, next)) : ∃ since, Ticking timeout since next := by
  have hended := @run_query inquiry.operation inquiry.sql inquiry.params s h.active
  have hnext : next = ((s.perform inquiry.call).2.sample inquiry.operation.name
      (some (inquiry.sql, inquiry.params))).watch.touch :=
    (congrArg Prod.snd hrun).symm.trans (congrArg Prod.snd hended)
  have hmarked : Ticking timeout (lastActive [.active since]) (s.perform inquiry.call).2 := h.perform _
  have htimed := hmarked.ended (by simp) inquiry.operation.name (some (inquiry.sql, inquiry.params))
  obtain ⟨-, hticking, -⟩ := htimed.ticking_of_active (hnext ▸ Inquiry.active_of_ask hrun)
  exact ⟨_, hnext ▸ hticking⟩

/-! ### Dialogues -/

theorem Ticking.facing (h : Ticking timeout since s) (conduct : Conduct) : Ticking timeout since (s.facing conduct) :=
  h.later (Nat.le_refl _) rfl

theorem ComesTo.ticking {inquiry : Inquiry} {issued : Session} {rest : List Row → Work α}
    (h : ComesTo w s inquiry issued rest) (hticking : Ticking timeout since s) (conduct : Conduct) :
    Ticking timeout since (issued.facing conduct) := (hticking.sameCourse h.course).facing conduct

/-- At most the last statement of a dialogue is overdue, and then it is the end. -/
theorem Dialogue.ends_of_overdue (h : Dialogue storage w s asked result last) (hticking : Ticking timeout since s) :
    ∀ issue ∈ asked, issue.Overdue → issue.Ends result last := by
  induction h generalizing since with
  | finished _ => exact fun _ hmem => absurd hmem List.not_mem_nil
  | failed hcomes hrun =>
      intro issue hmem hoverdue
      obtain rfl := List.mem_singleton.mp hmem
      have hends := (hcomes.ticking hticking _).ends_of_overdue hoverdue
      rw [hrun] at hends
      exact ⟨congrArg Except.error (Except.error.inj hends.result), hends.log, hends.queue, hends.types,
        hends.entities⟩
  | @answered storage _ _ _ _ _ _ _ _ _ _ hcomes hrun _ ih =>
      intro issue hmem hoverdue
      have hissued := hcomes.ticking hticking storage.head
      rcases List.mem_cons.mp hmem with rfl | hlater
      · have hends := hissued.ends_of_overdue hoverdue
        rw [hrun] at hends
        cases hends.result
      · obtain ⟨_, hnext⟩ := hissued.answered hrun
        exact ih hnext issue hlater hoverdue

/-! ### Requests -/

theorem overlooks_queries : Overlooks fun s next => next.queries = s.queries where
  refl _ := rfl
  trans hab hbc := hbc.trans hab
  course _ _ _ _ _ _ _ _ _ _ := rfl
  call s request hother := by
    rw [queries_perform]
    cases request with
    | query sql params => exact absurd rfl hother
    | _ => exact List.append_nil _

/-- A request without an outcome asks nothing. -/
theorem queries_answer {request : Request} (h : request.hasOutcome = false) (s : Session) :
    ((answerRequest request).run s).2.queries = s.queries := by
  have hshown : ∀ {shown}, request.shows = some shown → ((answerRequest request).run s).2.queries = s.queries := by
    intro shown hshows
    rcases run_shown hshows s with hrun | ⟨-, -, hrun⟩ <;> rw [hrun]
    rfl
  have hR := overlooks_queries
  cases request with
  | subscribe event => exact hR.bind (hR.subscribe event) (fun _ => hR.pure _) s
  | unsubscribe event => exact hR.bind (hR.unsubscribe event) (fun _ => hR.pure _) s
  | subscriptions event =>
      exact hR.bind (hR.bind (hR.attempt _) fun _ => hR.bind hR.get fun _ => hR.pure _) (fun _ => hR.pure _) s
  | finish ending => exact hR.bind (hR.finish ending) (fun _ => hR.pure _) s
  | fetch | fetchSingle | fetchFirst => exact hshown rfl
  | _ => cases h

theorem ticking_after_start {settings : Settings} {connection : Connection} {attentive : Bool}
    (hstart : start settings connection attentive = .ok s) (script : List Step)
    (hopen : (s.after script).phase = .active) : ∃ since, Ticking settings.timeout since (s.after script) := by
  obtain ⟨begun, hbegun, -⟩ := exists_opened hstart
  change s = _ at hbegun
  have hopened : Ticking settings.timeout (lastActive []) (opened settings begun attentive) := by
    have hdeadline : (opened settings begun attentive).deadline = 0 + settings.timeout := (Nat.zero_add _).symm
    exact ⟨rfl, rfl, rfl, hdeadline, Nat.le_refl _,
      ⟨Nat.le_of_eq hdeadline, _, rfl, Nat.le_of_eq hdeadline⟩, rfl⟩
  have hstarted : Timed settings.timeout s [] := hbegun ▸ hopened.watch List.not_mem_nil
  obtain ⟨marks, hmarks⟩ := carries_chronicle.after script s
  exact ⟨_, ((hmarks.timed hstarted).ticking_of_active hopen).2.1⟩

/-- **A statement that outlasts the deadline is the end of its operation.** Operations on records can be followed
statement by statement, however storage behaves at each of them, and other requests ask no statements. If the deadline
has passed when storage answers a statement, then whatever it answers the operation fails because the transaction was
rolled back; nothing is called after that statement but the rollback and the end of the connection; and the queue of
results, the types and the entities are what they were when the statement was asked. -/
theorem overdue_statement_ends {settings : Settings} {connection : Connection} {attentive : Bool}
    (hstart : start settings connection attentive = .ok s) (script : List Step)
    (hopen : (s.after script).phase = .active) (request : Request) :
    let reached := s.after script
    let answer := (answerRequest request).run reached
    (request.hasOutcome = false → answer.2.queries = reached.queries) ∧
      (request.hasOutcome = true →
        (∃ storage asked, Dialogue storage (answerRequest request) reached asked answer.1 answer.2) ∧
        ∀ storage, ∃ asked result last, Dialogue storage (answerRequest request) reached asked result last) ∧
      ∀ storage asked result last, Dialogue storage (answerRequest request) reached asked result last →
        last.queries = reached.queries ++ asked.map (fun issue => (issue.inquiry.sql, issue.inquiry.params)) ∧
          ∀ issue ∈ asked, issue.Overdue → issue.Ends result last := by
  intro reached answer
  obtain ⟨since, hticking⟩ := ticking_after_start hstart script hopen
  refine ⟨fun hnone => queries_answer hnone reached, fun hsome => ?_, fun storage asked result last hdialogue => ?_⟩
  · have hfollows : Follows (answerRequest request) reached := Orderly.answerRequest hsome reached
    exact ⟨hfollows.dialogue_run, hfollows.exists_dialogue⟩
  · exact ⟨hdialogue.queries hopen, hdialogue.ends_of_overdue hticking⟩

/-- The documents of a type are counted. Storage knows no such type, and then takes longer than the timeout for a
number. -/
theorem overdue_statement_ends_count :
    let settings := { Settings.default with timeout := 30 }
    let s := opened settings ⟨.scripted [], [], 0, [.begin], [true]⟩ true
    let request : Request := .searchDocuments "User" .null Traits.counting
    let storage : Stream' Conduct :=
      .cons ⟨.scripted [.ok []], [], 20⟩ (.const ⟨.scripted [.ok [[("count", .nat 2)]]], [], 40⟩)
    ∃ first second last, start settings (.ofBackend (.scripted [])) true = .ok s ∧
      Dialogue storage (answerRequest request) s [first, second] (.error (.wrongPhase .rolledBack .search)) last ∧
      second.Overdue ∧ last.queue = [] ∧ last.types = [("User", none)] := by
  intro settings s request storage
  have hstart : start settings (.ofBackend (.scripted [])) true = .ok s := rfl
  obtain ⟨lookingUp, hlookingUp, hfields⟩ : ∃ built, Query.ofTraits? (s.targetOf .type Schema.empty)
      (.object [("$name", .string "User")]) single = .ok built ∧ built.fields ≠ [] := ⟨_, rfl, nofun⟩
  obtain ⟨lookup, hlookup, -⟩ := (Query.built_of_ofTraits? hlookingUp).exists_statement (.inr hfields)
  let first : Issue := ⟨⟨.search, lookup.sql, lookup.params⟩, s.facing storage.head⟩
  obtain ⟨next, hnext, hqueue, htypes, hnow, hdeadline⟩ : ∃ next, first.inquiry.ask.run first.session = (.ok [], next) ∧
      next.queue = [] ∧ next.types = [] ∧ next.now = 20 ∧ next.deadline = 50 := ⟨_, rfl, rfl, rfl, rfl, rfl⟩
  -- the type is remembered as missing before the second statement
  let issued : Session := { next with types := ("User", none) :: next.types }
  have hissued : SameCourse next issued := ⟨rfl, rfl, rfl, rfl, rfl, rfl, rfl, rfl, rfl, rfl⟩
  obtain ⟨searching, hsearching, hcount⟩ : ∃ built, Query.ofTraits? (issued.targetOf .document Schema.empty)
      (typedFilter "User" .null) Traits.counting = .ok built ∧ built.count = true := ⟨_, rfl, rfl⟩
  obtain ⟨search, hsearch, -⟩ := (Query.built_of_ofTraits? hsearching).exists_statement (.inl hcount)
  let second : Issue := ⟨⟨.search, search.sql, search.params⟩, issued.facing storage.tail.head⟩
  have hoverdue : second.Overdue := by
    refine Issue.overdue_iff.mpr ?_
    change next.deadline ≤ next.now + 40
    rw [hnow, hdeadline]
    decide
  have hcomes : ComesTo (answerRequest request) s first.inquiry s _ :=
    ((comesTo_typeSchema rfl ⟨hlookingUp, hlookup⟩).bind _).bind _
  obtain ⟨last, hlast⟩ : ∃ last, second.inquiry.ask.run second.session =
      (.error (.wrongPhase .rolledBack .search), last) := by
    obtain ⟨_, hbegun⟩ := ticking_after_start hstart [] rfl
    obtain ⟨_, hanswered⟩ := (hcomes.ticking hbegun storage.head).answered hnext
    have hticking := (hanswered.sameCourse hissued).facing storage.tail.head
    exact ⟨_, Prod.ext (@Ticking.ends_of_overdue _ _ second hticking hoverdue).result rfl⟩
  have hdialogue : Dialogue storage (answerRequest request) s [first, second]
      (.error (.wrongPhase .rolledBack .search)) last := by
    have hcounts := (comesTo_selectResult (s := issued) ⟨hsearching, hsearch⟩).bind fun value =>
      (pure (Reply.value (some value)) : Work Reply)
    refine .answered hcomes hnext (.failed (hcounts.of_run hissued fun conduct => ?_) hlast)
    rw [bind_assoc, run_bind]
    rfl
  obtain ⟨-, hends⟩ := (overdue_statement_ends hstart [] rfl request).2.2 storage _ _ _ hdialogue
  have hlost := hends second (by simp) hoverdue
  exact ⟨first, second, last, hstart, hdialogue, hoverdue, hlost.queue.trans hqueue,
    hlost.types.trans (congrArg (_ :: ·) htypes)⟩

end Dossier.Session
