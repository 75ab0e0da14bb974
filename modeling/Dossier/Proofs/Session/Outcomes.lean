import Dossier.Proofs.Session.Holdings
import Mathlib

/-!
The queue of results. An operation that succeeds leaves its outcome there, once and as the last thing it does to
the queue; one that fails leaves nothing, whatever it asked of storage before. Main statement: after every script
what was fetched so far, and then what still waits, are the outcomes of the requests that succeeded, in order.
-/

namespace Dossier

/-- The requests that have an outcome when they succeed. -/
def Request.hasOutcome : Request → Bool
  | .execute _ _ | .create _ _ | .createDocument _ _ | .createType _ _ _ | .read _ _ | .search _ _ _
  | .searchDocuments _ _ _ | .count _ _ | .update _ _ | .delete _ _ | .getType _ => true
  | .subscribe _ | .unsubscribe _ | .subscriptions _ | .finish _ | .fetch | .fetchSingle | .fetchFirst => false

/-- The request whose answer tells the outcome: a count answers with a number, made of what the search that
counts gave. -/
def Request.told : Request → Request
  | .count kind filter => .search kind filter Traits.counting
  | request => request

/-- What a fetch shows of the result that it takes; nothing for other requests. -/
def Request.shows : Request → Option (Json → Option Json)
  | .fetch => some some
  | .fetchSingle => some Session.onlyRecord
  | .fetchFirst => some Session.firstOf
  | _ => none

/-- The outcome that a reply tells. No record is told as null. -/
def Reply.outcome : Reply → List Json
  | .value answer => [answer.getD .null]
  | _ => []

namespace Session

/-- The outcome of a step that succeeds, if it has one. -/
def outcome (s : Session) : Step → List Json
  | .request request =>
    if request.hasOutcome then
      match (s.step (.request request.told)).1 with
      | .ok reply => reply.outcome
      | .error _ => []
    else []
  | .overlap _ _ | .circumstance _ => []

/-- What a step takes off the queue: the oldest result, if it is a fetch and succeeds. -/
def taken (s : Session) : Step → List Json
  | .request request =>
    if request.shows.isSome && (s.step (.request request)).1.isOk then s.queue.take 1 else []
  | .overlap _ _ | .circumstance _ => []

/-- What the steps of a script give, one after another. -/
def along (given : Session → Step → List Json) : List Step → Session → List Json
  | [], _ => []
  | next :: script, s => given s next ++ along given script (s.step next).2

/-- Work that adds to the queue what its result tells, and nothing when it fails. -/
def Leaves {α : Type} (result : α → List Json) (w : Work α) : Prop :=
  ∀ s, (w.run s).2.queue = s.queue ++ match (w.run s).1 with
    | .ok a => result a
    | .error _ => []

/-- Work that leaves the queue as it is. -/
abbrev Quiet {α : Type} (w : Work α) : Prop := Leaves (fun _ => []) w

variable {α β : Type}

/-! ### Parts of operations -/

theorem quiet_iff {w : Work α} : Quiet w ↔ ∀ s, (w.run s).2.queue = s.queue := by
  refine forall_congr' fun s => ?_
  cases (w.run s).1 <;> rw [List.append_nil]

theorem quiet_pure (a : α) : Quiet (pure a) := quiet_iff.mpr fun _ => rfl

theorem quiet_attempt (result : Except Fault α) : Quiet (attempt result) := quiet_iff.mpr fun _ => rfl

theorem quiet_get : Quiet (get : Work Session) := quiet_iff.mpr fun _ => rfl

theorem quiet_change {f : Session → Session} (h : ∀ s, (f s).queue = s.queue) : Quiet (change f) := quiet_iff.mpr h

theorem Unheld.quiet {w : Work α} (h : Unheld w) : Quiet w := quiet_iff.mpr fun s => (h s).queue

theorem quiet_query (operation : Operation) (sql : String) (params : List Json) :
    Quiet (query operation sql params) := (Unheld.query operation sql params).quiet

theorem quiet_remember (record : Json) : Quiet (remember record) := (Unheld.remember record).quiet

theorem quiet_select (target : Target) (filter : Json) (traits : Traits) : Quiet (select target filter traits) :=
  (Unheld.select target filter traits).quiet

theorem quiet_lookup (kind : Kind) (key text : String) : Quiet (lookup kind key text) :=
  (Unheld.lookup kind key text).quiet

theorem leaves_push (value : Json) : Leaves (fun _ => [value]) (push value) := fun _ => rfl

namespace Leaves

variable {result : α → List Json} {result' : β → List Json} {w : Work α} {f : α → Work β}

/-- What comes before the last part of an operation is quiet. -/
theorem bind (hw : Quiet w) (hf : ∀ a, Leaves result' (f a)) : Leaves result' (w >>= f) := by
  intro s
  have hqueue := quiet_iff.mp hw s
  rw [run_bind]
  rcases hrun : w.run s with ⟨answer, next⟩
  rw [hrun] at hqueue
  cases answer with
  | error fault => exact hqueue.trans (List.append_nil _).symm
  | ok a => exact hqueue ▸ hf a next

/-- Work that ends with an answer that tells the same as before. -/
theorem answer {g : α → β} (hw : Leaves result w) (hg : ∀ a, result' (g a) = result a) :
    Leaves result' (w >>= fun a => pure (g a)) := by
  intro s
  have hqueue := hw s
  rw [run_bind]
  rcases hrun : w.run s with ⟨answer, next⟩
  rw [hrun] at hqueue
  cases answer with
  | error fault => exact hqueue
  | ok a => exact hqueue.trans (congrArg (s.queue ++ ·) (hg a).symm)

/-- A change aside from the queue may follow. -/
theorem aside {g : α → Session → Session} (hw : Leaves result w) (hg : ∀ a s, (g a s).queue = s.queue) :
    Leaves result (w >>= fun a => change (g a) >>= fun _ => pure a) := by
  intro s
  have hqueue := hw s
  rw [run_bind]
  rcases hrun : w.run s with ⟨answer, next⟩
  rw [hrun] at hqueue
  cases answer with
  | error fault => exact hqueue
  | ok a => exact (hg a next).trans hqueue

end Leaves

/-- The outcome is pushed, and then answered. -/
theorem leaves_pushed {result : α → List Json} {value : Json} {a : α} (h : result a = [value]) :
    Leaves result (push value >>= fun _ => pure a) :=
  (leaves_push value).answer fun _ => h

/-! ### Reading -/

theorem quiet_lookupType (name : String) : Quiet (lookupType name) := by
  refine .bind quiet_get fun s => ?_
  split
  · exact quiet_pure _
  · exact .bind (quiet_lookup _ _ _) fun found => .bind (quiet_change fun _ => rfl) fun _ => quiet_pure found

theorem quiet_typeSchema (name : String) : Quiet (typeSchema name) :=
  .bind (quiet_lookupType name) fun _ => quiet_pure _

theorem leaves_selectResult (kind : Kind) (schema : Schema) (filter : Json) (traits : Traits) :
    Leaves ([·]) (selectResult kind schema filter traits) :=
  .bind quiet_get fun _ => .bind (quiet_select _ _ _) fun _ => leaves_pushed rfl

theorem leaves_search (kind : Kind) (filter : Json) (traits : Traits) :
    Leaves ([·]) (search kind filter traits) := by
  unfold search
  split
  · exact .bind (quiet_typeSchema _) fun _ => leaves_selectResult _ _ _ _
  · exact .bind (quiet_pure _) fun _ => leaves_selectResult _ _ _ _

theorem leaves_searchDocuments (typeName : String) (filter : Json) (traits : Traits) :
    Leaves ([·]) (searchDocuments typeName filter traits) :=
  .bind (quiet_typeSchema _) fun _ => leaves_selectResult _ _ _ _

theorem leaves_read (kind : Kind) (id : String) : Leaves (fun found => [found.getD .null]) (read kind id) :=
  .bind (quiet_lookup _ _ _) fun _ => leaves_pushed rfl

theorem leaves_getType (name : String) : Leaves (fun found => [found.getD .null]) (getType name) :=
  .bind (quiet_lookupType name) fun _ => leaves_pushed rfl

theorem leaves_execute (sql : String) (params : List Json) :
    Leaves (fun rows => [.array (rows.map .object)]) (execute sql params) :=
  .bind (quiet_query _ _ _) fun _ => leaves_pushed rfl

/-! ### Writing -/

theorem leaves_create (kind : Kind) (record : Json) : Leaves ([·]) (create kind record) :=
  .bind (quiet_attempt _) fun _ => .bind quiet_get fun _ => .bind (quiet_query _ _ _) fun _ =>
    .bind (quiet_attempt _) fun _ => .bind (quiet_remember _) fun _ => leaves_pushed rfl

theorem leaves_createDocument (typeName : String) (content : Json) :
    Leaves ([·]) (createDocument typeName content) := by
  refine .bind (quiet_attempt _) fun record => ?_
  dsimp only
  split
  · exact leaves_create _ _
  · exact .bind (.bind quiet_get fun _ => .bind (quiet_change fun _ => rfl) fun _ => quiet_pure _)
      fun _ => leaves_create _ _

theorem leaves_createType (name : String) (schema metadata : Json) :
    Leaves ([·]) (createType name schema metadata) := by
  have hrest : ∀ record : Members, Leaves ([·]) (do
      let record := Members.insert "schema" schema (Members.insert "name" (.string name) record)
      let created ← create .type (.object record)
      change fun s => { s with types := (name, some created) :: s.types }
      return created) := fun _ => (leaves_create _ _).aside fun _ _ => rfl
  unfold createType
  split
  · exact .bind (quiet_pure _) hrest
  · exact .bind (quiet_attempt _) hrest

theorem leaves_writeChanges (kind : Kind) (id : String) (before after : Row) :
    Leaves ([·]) (writeChanges kind id before after) := by
  unfold writeChanges
  split
  · exact leaves_pushed rfl
  · exact .bind quiet_get fun _ => .bind (quiet_query _ _ _) fun _ => .bind (quiet_attempt _) fun _ =>
      .bind (quiet_remember _) fun _ => leaves_pushed rfl

theorem leaves_update (kind : Kind) (record : Json) : Leaves ([·]) (update kind record) := by
  refine .bind (quiet_attempt _) fun changes => ?_
  split
  · exact fun s => (List.append_nil s.queue).symm
  · refine .bind (quiet_lookup _ _ _) fun found => ?_
    split
    · exact fun s => (List.append_nil s.queue).symm
    · exact .bind (quiet_attempt _) fun _ => leaves_writeChanges _ _ _ _

theorem leaves_delete (kind : Kind) (id : String) : Leaves (fun removed => [.bool removed]) (delete kind id) :=
  .bind (quiet_query _ _ _) fun _ => .bind (quiet_change fun _ => rfl) fun _ => leaves_pushed rfl

/-! ### Fetching -/

theorem run_fetch (s : Session) : fetch.run s = (.ok s.queue.head?, { s with queue := s.queue.tail }) := by
  unfold fetch
  rw [run_bind, run_get]
  dsimp only
  split <;> rename_i hqueue <;> rw [hqueue]
  · exact congrArg (Prod.mk _) (congrArg (fun queue => { s with queue }) hqueue)
  · rfl

/-- Fetches answer with what they show of the oldest result and take all of it; a single fetch refuses a result
that holds more, and leaves it. -/
theorem run_shown {request : Request} {shown : Json → Option Json} (h : request.shows = some shown) (s : Session) :
    (answerRequest request).run s =
        (.ok (.value (s.queue.head?.bind shown)), { s with queue := s.queue.tail }) ∨
      request = .fetchSingle ∧ 1 < s.frontSize ∧
        (answerRequest request).run s = (.error (.execution (.manyResults s.frontSize)), s) := by
  cases request with
  | fetch =>
      cases h
      refine .inl ?_
      rw [answerRequest, run_bind, run_fetch, Option.bind_fun_some]
      rfl
  | fetchFirst =>
      cases h
      refine .inl ?_
      rw [answerRequest, run_bind, fetchFirst, run_bind, run_fetch]
      rfl
  | fetchSingle =>
      cases h
      rw [answerRequest, run_bind, fetchSingle, run_bind, run_get]
      dsimp only
      by_cases hmany : 1 < s.frontSize
      · rw [if_pos hmany]
        exact .inr ⟨rfl, hmany, rfl⟩
      · rw [if_neg hmany, run_bind, run_fetch]
        exact .inl rfl
  | _ => cases h

/-! ### Requests -/

theorem step_request (request : Request) (s : Session) : s.step (.request request) =
    (((answerRequest request).run s).1, ((answerRequest request).run s).2.watch) := rfl

/-- A request with an outcome leaves there what its answer tells. -/
theorem leaves_answer {request : Request} (h : request.hasOutcome = true)
    (hcount : ∀ kind filter, request ≠ .count kind filter) : Leaves Reply.outcome (answerRequest request) := by
  cases request with
  | execute sql params => exact (leaves_execute sql params).answer fun _ => rfl
  | create kind record => exact (leaves_create kind record).answer fun _ => rfl
  | createDocument typeName content => exact (leaves_createDocument typeName content).answer fun _ => rfl
  | createType name schema metadata => exact (leaves_createType name schema metadata).answer fun _ => rfl
  | read kind id => exact (leaves_read kind id).answer fun _ => rfl
  | search kind filter traits => exact (leaves_search kind filter traits).answer fun _ => rfl
  | searchDocuments typeName filter traits =>
      exact (leaves_searchDocuments typeName filter traits).answer fun _ => rfl
  | count kind filter => exact absurd rfl (hcount kind filter)
  | update kind record => exact (leaves_update kind record).answer fun _ => rfl
  | delete kind id => exact (leaves_delete kind id).answer fun _ => rfl
  | getType name => exact (leaves_getType name).answer fun _ => rfl
  | _ => cases h

/-- Subscriptions and ends leave nothing. -/
theorem quiet_answer {request : Request} (h : request.hasOutcome = false) (hshows : request.shows = none) :
    Quiet (answerRequest request) := by
  cases request with
  | subscribe event => exact (Unheld.subscribe event).quiet.answer fun _ => rfl
  | unsubscribe event => exact (Unheld.unsubscribe event).quiet.answer fun _ => rfl
  | subscriptions event =>
      exact .bind (.bind (quiet_attempt _) fun _ => .bind quiet_get fun _ => quiet_pure _) fun _ => quiet_pure _
  | finish ending => exact .bind (Unheld.finish ending).quiet fun _ => quiet_pure _
  | fetch | fetchSingle | fetchFirst => cases hshows
  | _ => cases h

/-- A count answers with the number that its outcome is, and 0 if it is none; it fails as the search does. -/
theorem answer_count (kind : Kind) (filter : Json) (s : Session) :
    (((answerRequest (.count kind filter)).run s).1 =
      ((search kind filter Traits.counting).run s).1.map fun value => .number (value.natural?.getD 0)) ∧
    ((answerRequest (.search kind filter Traits.counting)).run s).1 =
      ((search kind filter Traits.counting).run s).1.map fun value => .value (some value) := by
  unfold answerRequest Session.count
  rw [run_bind, run_bind, run_bind]
  rcases (search kind filter Traits.counting).run s with ⟨answer, next⟩
  cases answer <;> exact ⟨rfl, rfl⟩

theorem hasOutcome_of_shows {request : Request} {shown : Json → Option Json} (h : request.shows = some shown) :
    request.hasOutcome = false := by
  cases request <;> first | rfl | cases h

theorem told_of_ne {request : Request} (h : ∀ kind filter, request ≠ .count kind filter) : request.told = request := by
  cases request <;> first | rfl | exact absurd rfl (h _ _)

theorem taken_of_shows {request : Request} (h : request.shows = none) (s : Session) :
    s.taken (.request request) = [] := by
  rw [taken, h]
  rfl

/-- A request without a fetch adds its outcome to the queue. -/
theorem queue_answer {request : Request} (hshows : request.shows = none) (s : Session) :
    ((answerRequest request).run s).2.queue = s.queue ++ s.outcome (.request request) := by
  cases houtcome : request.hasOutcome with
  | false =>
      rw [outcome, houtcome]
      exact (quiet_iff.mp (quiet_answer houtcome hshows) s).trans (List.append_nil _).symm
  | true =>
      rw [outcome, houtcome, if_pos rfl, step_request]
      by_cases hcount : ∃ kind filter, request = .count kind filter
      · obtain ⟨kind, filter, rfl⟩ := hcount
        have hqueue := leaves_search kind filter Traits.counting s
        have htold := (answer_count kind filter s).2
        rw [answerRequest, run_bind_pure, Session.count, run_bind_pure, hqueue, Request.told, htold]
        cases ((search kind filter Traits.counting).run s).1 <;> rfl
      · have hother : ∀ kind filter, request ≠ .count kind filter :=
          fun kind filter h => hcount ⟨kind, filter, h⟩
        rw [leaves_answer houtcome hother s, told_of_ne hother]
        cases ((answerRequest request).run s).1 <;> rfl

/-- What a step takes off the queue and what it leaves there. -/
theorem queue_step (next : Step) (s : Session) :
    s.taken next ++ (s.step next).2.queue = s.queue ++ s.outcome next := by
  cases next with
  | overlap first second =>
      have hfinish := (Unheld.finish first s).trans (sameHoldings_watch _)
      rw [← finishTwice_snd first second] at hfinish
      exact hfinish.queue.trans (List.append_nil _).symm
  | circumstance circumstance =>
      have hhappened := (sameHoldings_happen circumstance s).trans (sameHoldings_watch _)
      exact hhappened.queue.trans (List.append_nil _).symm
  | request request =>
      rw [step_request]
      dsimp only
      rw [(sameHoldings_watch _).queue]
      cases hshows : request.shows with
      | none =>
          rw [taken_of_shows hshows, queue_answer hshows]
          rfl
      | some shown =>
          have hnone : s.outcome (.request request) = [] := by
            rw [outcome, hasOutcome_of_shows hshows]
            rfl
          rw [hnone, List.append_nil, taken, hshows, step_request]
          rcases run_shown hshows s with htaken | ⟨-, -, hkept⟩
          · rw [htaken]
            exact (congrArg _ List.drop_one.symm).trans (List.take_append_drop 1 s.queue)
          · rw [hkept]
            rfl

/-- How answers tell what a request adds to the queue and takes off it. -/
structure Accounts (s : Session) (request : Request) : Prop where
  outcome : (s.outcome (.request request)).length =
    if request.hasOutcome && (s.step (.request request)).1.isOk then 1 else 0
  counted : ∀ kind filter, request = .count kind filter → ∀ value ∈ s.outcome (.request request),
    (s.step (.request request)).1 = .ok (.number (value.natural?.getD 0))
  taken : ∀ shown, request.shows = some shown →
    (s.step (.request request)).1 = .ok (.value ((s.taken (.request request)).head?.bind shown)) ∨
      request = .fetchSingle ∧ 1 < s.frontSize ∧ s.taken (.request request) = []
  kept : request.shows = none → s.taken (.request request) = []

theorem exists_value {request : Request} (h : request.hasOutcome = true)
    (hcount : ∀ kind filter, request ≠ .count kind filter) {s : Session} {reply : Reply}
    (hok : ((answerRequest request).run s).1 = .ok reply) : ∃ value, reply = .value value := by
  cases request with
  | count kind filter => exact absurd rfl (hcount kind filter)
  | subscribe | unsubscribe | subscriptions | finish | fetch | fetchSingle | fetchFirst => cases h
  | _ =>
      obtain ⟨_, -, hrun⟩ := run_bind_ok hok
      rw [answerRequest, hrun] at hok
      cases hok
      exact ⟨_, rfl⟩

theorem accounts (s : Session) (request : Request) : s.Accounts request where
  outcome := by
    cases houtcome : request.hasOutcome with
    | false =>
        rw [outcome, houtcome]
        rfl
    | true =>
        rw [outcome, houtcome, if_pos rfl, Bool.true_and, step_request, step_request]
        dsimp only
        by_cases hcount : ∃ kind filter, request = .count kind filter
        · obtain ⟨kind, filter, rfl⟩ := hcount
          obtain ⟨hnumber, hvalue⟩ := answer_count kind filter s
          rw [Request.told, hnumber, hvalue]
          cases ((search kind filter Traits.counting).run s).1 <;> rfl
        · have hother : ∀ kind filter, request ≠ .count kind filter :=
            fun kind filter h => hcount ⟨kind, filter, h⟩
          rw [told_of_ne hother]
          cases hanswer : ((answerRequest request).run s).1 with
          | error fault => rfl
          | ok reply =>
              obtain ⟨value, rfl⟩ := exists_value houtcome hother hanswer
              rfl
  counted := by
    rintro kind filter rfl value hvalue
    obtain ⟨hnumber, htold⟩ := answer_count kind filter s
    have hcounted : (Request.count kind filter).hasOutcome = true := rfl
    rw [outcome, if_pos hcounted, Request.told, step_request, htold] at hvalue
    rw [step_request, hnumber]
    cases hsearch : ((search kind filter Traits.counting).run s).1 with
    | error fault =>
        rw [hsearch] at hvalue
        cases hvalue
    | ok found =>
        rw [hsearch] at hvalue
        rw [List.mem_singleton.mp hvalue]
        rfl
  taken shown hshows := by
    rw [taken, hshows, step_request]
    rcases run_shown hshows s with htaken | ⟨hsingle, hmany, hkept⟩
    · rw [htaken]
      refine .inl ?_
      cases s.queue <;> rfl
    · rw [hkept]
      exact .inr ⟨hsingle, hmany, rfl⟩
  kept hshows := taken_of_shows hshows s

/-! ### Scripts -/

theorem queue_after (script : List Step) (s : Session) :
    along taken script s ++ (s.after script).queue = s.queue ++ along outcome script s := by
  induction script generalizing s with
  | nil => exact (List.append_nil s.queue).symm
  | cons next script ih =>
      calc along taken (next :: script) s ++ (s.after (next :: script)).queue
          = s.taken next ++ (along taken script (s.step next).2 ++ ((s.step next).2.after script).queue) :=
            List.append_assoc ..
        _ = s.taken next ++ ((s.step next).2.queue ++ along outcome script (s.step next).2) := by rw [ih]
        _ = (s.queue ++ s.outcome next) ++ along outcome script (s.step next).2 := by
            rw [← List.append_assoc, queue_step]
        _ = s.queue ++ along outcome (next :: script) s := List.append_assoc ..

/-- What was taken off the queue so far, and then what still waits there, are the outcomes of the requests that
succeeded, in their order. Each of these has one outcome, and all other steps have none. -/
theorem queue_after_start {settings : Settings} {connection : Connection} {attentive : Bool} {s : Session}
    (hstart : start settings connection attentive = .ok s) (script : List Step) :
    along taken script s ++ (s.after script).queue = along outcome script s ∧
      ∀ request, (s.after script).Accounts request := by
  obtain ⟨begun, hbegun, -⟩ := exists_opened hstart
  have hempty : s.queue = [] := by
    change s = _ at hbegun
    rw [hbegun, (sameHoldings_watch _).queue]
    rfl
  refine ⟨?_, accounts _⟩
  rw [queue_after, hempty, List.nil_append]

/-- A result of two records, which a single fetch refuses, a statement that fails, and a deletion. -/
theorem queue_after_start_many :
    let rows : List Row := [[("n", .int 1)], [("n", .int 2)]]
    let script : List Step := [.circumstance (.answer (.ok rows)), .request (.execute "SELECT n" []),
      .request .fetchSingle, .circumstance (.fail .query (some "busy")), .request (.execute "SELECT n" []),
      .circumstance (.fail .query none), .request (.delete .document "a"), .request .fetchFirst]
    ∃ s, start Settings.default (.ofBackend (.scripted [])) true = .ok s ∧
      along outcome script s = [.array (rows.map .object), .bool false] ∧
      (s.after script).queue = [.bool false] ∧ along taken script s = [.array (rows.map .object)] := by
  intro rows script
  refine ⟨_, rfl, ?_⟩
  generalize hopened : (opened Settings.default _ true).watch = s
  have hstart : start Settings.default (.ofBackend (.scripted [])) true = .ok s := congrArg Except.ok hopened
  obtain ⟨hqueue, -⟩ := queue_after_start hstart script
  have houtcome : along outcome script s = [.array (rows.map .object)] ++ [.bool false] := by
    subst hopened
    cbv
  have hwaits : (s.after script).queue = [.bool false] := by
    subst hopened
    cbv
  rw [houtcome, hwaits] at hqueue
  exact ⟨houtcome, hwaits, List.append_cancel_right hqueue⟩

end Session

end Dossier
