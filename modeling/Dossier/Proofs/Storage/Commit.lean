import Dossier.Proofs.Results
import Dossier.Storage.Store
import Mathlib

/-!
Announcements and commits. Statements only add to the queue of announcements, so the queue holds what the transaction
announced, in order, until an attempt to commit takes everything off it. An attempt that is accepted sends what it took
to those who listen. One that is refused sends nothing, and what it took is gone although the transaction goes on.
Main statement: `commit_sends`.
-/

namespace Dossier

/-! ### What statements queue -/

namespace Database

variable {db next : Database}

/-- The queue of the one is that of the other with more at its end. -/
def Queues (db next : Database) : Prop := db.data.queue <+: next.data.queue

theorem Queues.refl (db : Database) : Queues db db := List.prefix_refl _

theorem Queues.trans {middle : Database} (h : Queues db middle) (h' : Queues middle next) : Queues db next :=
  List.IsPrefix.trans h h'

theorem queues_announce (db : Database) (kind : Kind) (action : Action) (record : Expression.Record) :
    Queues db (db.announce kind action record) := by
  unfold announce
  split
  · exact List.prefix_append _ _
  · exact .refl db

theorem queues_insertRow {kind : Kind} {given record : Expression.Record}
    (h : db.insertRow kind given = .ok (next, record)) : Queues db next := by
  unfold insertRow at h
  dsimp only at h
  split at h
  · cases h
    exact queues_announce (db.setRows _ _) _ _ _
  · cases h

theorem queues_updateRow {kind : Kind} {position : Nat} {settings record : Expression.Record}
    (h : updateRow kind position settings db = .ok (next, record)) : Queues db next := by
  unfold updateRow at h
  dsimp only at h
  split at h
  · cases h
  · split at h
    · cases h
      exact queues_announce (db.setRows _ _) _ _ _
    · cases h

theorem queues_enqueue {given : Expression.Record} (h : db.enqueue given = .ok next) : Queues db next := by
  unfold enqueue at h
  split at h
  · cases h
    exact List.prefix_append _ _
  · cases h

theorem queues_runInsert {around : Surroundings} {table : String} {columns : List String} {values : List Expression}
    {returning : Returning} {rows : List Row}
    (h : db.runInsert around table columns values returning = .ok (next, rows)) :
    Queues db next := by
  obtain ⟨given, -, h⟩ := bind_eq_ok_iff.mp h
  split at h
  · obtain ⟨_, hqueued, h⟩ := bind_eq_ok_iff.mp h
    cases h
    exact queues_enqueue hqueued
  · split at h
    · cases h
    · obtain ⟨_, hinserted, h⟩ := bind_eq_ok_iff.mp h
      cases h
      exact queues_insertRow hinserted

theorem queues_runUpdate {around : Surroundings} {kind : Kind} {settings : List (String × Expression)}
    {condition : Option Expression} {returning : Returning} {rows : List Row}
    (h : db.runUpdate around kind settings condition returning = .ok (next, rows)) : Queues db next := by
  obtain ⟨found, -, h⟩ := bind_eq_ok_iff.mp h
  refine foldlM_invariant (P := fun state => Queues db state.1) h (.refl db) fun state record state' hstate hstep => ?_
  obtain ⟨given, -, hstep⟩ := bind_eq_ok_iff.mp hstep
  obtain ⟨updated, hupdated, hstep⟩ := bind_eq_ok_iff.mp hstep
  cases hstep
  exact hstate.trans (queues_updateRow hupdated)

theorem queues_runDelete {around : Surroundings} {kind : Kind} {condition : Option Expression}
    {returning : Returning} {rows : List Row} (h : db.runDelete around kind condition returning = .ok (next, rows)) :
    Queues db next := by
  have hfold : ∀ (found : List (Expression.Record × Nat)) (db : Database),
      Queues db (found.foldl (fun db pair => announce db kind .delete pair.1) db) := by
    intro found
    induction found with
    | nil => exact .refl
    | cons first rest ih => exact fun db => (queues_announce db _ _ _).trans (ih _)
  obtain ⟨found, -, h⟩ := bind_eq_ok_iff.mp h
  cases h
  exact hfold found (db.setRows _ _)

theorem queues_runCommand {around : Surroundings} {command : Command} {rows : List Row}
    (h : db.runCommand around command = .ok (next, rows)) : Queues db next := by
  cases command with
  | select retrieval =>
      obtain ⟨_, -, h⟩ := bind_eq_ok_iff.mp h
      cases h
      exact .refl db
  | insert table columns values returning => exact queues_runInsert h
  | update table settings condition returning =>
      rw [runCommand] at h
      split at h
      · exact queues_runUpdate h
      · cases h
  | delete table condition returning =>
      rw [runCommand] at h
      split at h
      · exact queues_runDelete h
      · cases h

/-- No statement takes anything off the queue. -/
theorem queues_query {sql : String} {params : List Json} {rows : List Row}
    (h : db.query sql params = .ok (next, rows)) : Queues db next := by
  unfold query at h
  split at h
  · cases h
  · split at h
    · cases h
    · dsimp only at h
      split at h
      · exact queues_runCommand h
      · cases h

end Database

/-! ### Transactions -/

/-- What a transaction is made of: statements, and changes of the channels that are listened to. -/
inductive Move where
  | query (sql : String) (params : List Json)
  | listen (channel : String)
  | unlisten (channel : String)

def Move.call : Move → Call
  | .query sql params => .query sql params
  | .listen channel => .listen channel
  | .unlisten channel => .unlisten channel

namespace Store

variable {store : Store}

/-- A transaction is open. -/
structure Open (store : Store) : Prop where
  connected : store.connected = true
  saved : store.saved.isSome = true

/-- The announcements that wait for a commit. -/
def waiting (store : Store) : List Notification := store.database.data.queue

/-- Whether an announcement is listened to. -/
def hears (store : Store) (notification : Notification) : Bool := store.listening.contains notification.channel

/-- The store after moves, and all that was sent on the way. -/
def moved : List Move → Store → Store × List Notification
  | [], store => (store, [])
  | move :: rest, store =>
    let performed := store.perform move.call
    let later := moved rest performed.1
    (later.1, performed.2.2 ++ later.2)

/-- What moves add to the queue. -/
def queuedBy : List Move → Store → List Notification
  | [], _ => []
  | move :: rest, store =>
    let next := (store.perform move.call).1
    next.waiting.drop store.waiting.length ++ queuedBy rest next

/-- Moves, and an attempt to commit after them. -/
def attempt (accepted : Bool) (moves : List Move) (store : Store) : Performed :=
  let before := store.moved moves
  let ended := before.1.commitIf accepted
  (ended.1, ended.2.1, before.2 ++ ended.2.2)

/-- Rounds of moves, each with an attempt to commit that is refused; and all that was sent on the way. -/
def refusals : List (List Move) → Store → Store × List Notification
  | [], store => (store, [])
  | round :: rest, store =>
    let refused := store.attempt false round
    let later := refusals rest refused.1
    (later.1, refused.2.2 ++ later.2)

/-- What the moves of rounds add to the queue. -/
def queuedIn : List (List Move) → Store → List Notification
  | [], _ => []
  | round :: rest, store => store.queuedBy round ++ queuedIn rest (store.attempt false round).1

/-- What refused attempts take off the queue: all that was on it when the last of them was made. -/
def lostIn (rounds : List (List Move)) (store : Store) : List Notification :=
  if rounds.isEmpty then [] else store.waiting ++ store.queuedIn rounds

/-- A move in a transaction leaves it open, sends nothing, and takes nothing off the queue. -/
theorem Open.perform (h : store.Open) (move : Move) :
    (store.perform move.call).1.Open ∧ (store.perform move.call).2.2 = [] ∧
      store.waiting <+: (store.perform move.call).1.waiting := by
  cases move with
  | query sql params =>
      rw [Move.call, Store.perform, Store.query, whileConnected, if_pos h.connected]
      cases hquery : store.database.query sql params with
      | ok result => exact ⟨⟨h.connected, h.saved⟩, rfl, Database.queues_query hquery⟩
      | error cause => exact ⟨h, rfl, List.prefix_refl _⟩
  | listen channel =>
      rw [Move.call, Store.perform, Store.listen]
      split
      · exact ⟨h, rfl, List.prefix_refl _⟩
      · exact ⟨⟨h.connected, h.saved⟩, rfl, List.prefix_refl _⟩
  | unlisten channel => exact ⟨⟨h.connected, h.saved⟩, rfl, List.prefix_refl _⟩

theorem Open.moved (h : store.Open) (moves : List Move) :
    (store.moved moves).1.Open ∧ (store.moved moves).2 = [] ∧
      (store.moved moves).1.waiting = store.waiting ++ store.queuedBy moves := by
  induction moves generalizing store with
  | nil => exact ⟨h, rfl, (List.append_nil _).symm⟩
  | cons move rest ih =>
      obtain ⟨hopen, hsent, added, hadded⟩ := h.perform move
      obtain ⟨hlast, hmore, hwaiting⟩ := ih hopen
      refine ⟨hlast, ?_, hwaiting.trans ?_⟩
      · rw [Store.moved, hsent, hmore, List.append_nil]
      · rw [queuedBy, ← hadded, List.drop_left, List.append_assoc]

theorem commitIf_of_connected (h : store.connected = true) (accepted : Bool) : store.commitIf accepted =
    if accepted then ({ store.drain.1 with saved := none }, .ok [], store.waiting.filter store.hears)
    else (store.drain.1, .error .refused, []) := if_pos h

/-- A refused attempt leaves the transaction open and the queue empty, and sends nothing. -/
theorem Open.attempt_false (h : store.Open) (moves : List Move) :
    (store.attempt false moves).1.Open ∧ (store.attempt false moves).2.2 = [] ∧
      (store.attempt false moves).1.waiting = [] := by
  obtain ⟨hopen, hsent, -⟩ := h.moved moves
  rw [attempt]
  dsimp only
  rw [hsent, commitIf_of_connected hopen.connected]
  exact ⟨⟨hopen.connected, hopen.saved⟩, rfl, rfl⟩

/-- An accepted attempt sends what waits and is listened to, and nothing waits any more. -/
theorem Open.attempt_true (h : store.Open) (moves : List Move) :
    (store.attempt true moves).2 =
        (.ok [], (store.waiting ++ store.queuedBy moves).filter (store.attempt true moves).1.hears) ∧
      (store.attempt true moves).1.waiting = [] := by
  obtain ⟨hopen, hsent, hwaiting⟩ := h.moved moves
  rw [attempt, ← hwaiting]
  dsimp only
  rw [hsent, commitIf_of_connected hopen.connected]
  exact ⟨rfl, rfl⟩

/-- Refused attempts leave the transaction open and send nothing; what was queued is lost or still waits. -/
theorem Open.refusals (h : store.Open) (rounds : List (List Move)) :
    (store.refusals rounds).1.Open ∧ (store.refusals rounds).2 = [] ∧
      store.lostIn rounds ++ (store.refusals rounds).1.waiting = store.waiting ++ store.queuedIn rounds ∧
      (store.waiting = [] → (store.refusals rounds).1.waiting = []) := by
  induction rounds generalizing store with
  | nil => exact ⟨h, rfl, (List.append_nil _).symm, id⟩
  | cons round rest ih =>
      obtain ⟨hopen, hsent, hempty⟩ := h.attempt_false round
      obtain ⟨hlast, hmore, -, hwaiting⟩ := ih hopen
      have hnone : (store.refusals (round :: rest)).1.waiting = [] := hwaiting hempty
      refine ⟨hlast, ?_, ?_, fun _ => hnone⟩
      · rw [Store.refusals, hsent, hmore, List.append_nil]
      · rw [hnone, List.append_nil]
        rfl

/-- **What an accepted commit sends after refused attempts.** However many attempts are refused, they send nothing and
leave the transaction open, so that the last attempt is accepted. That one sends what is listened to of all that was
queued since the last refused attempt, or since the beginning if there was none, each once and in the order of the
queue, and nothing waits after it. Nothing else is lost: so it sends all that was queued in the transaction and is
listened to exactly if none of what was queued before the last refused attempt is listened to. -/
theorem commit_sends (hopen : store.Open) (rounds : List (List Move)) (moves : List Move) :
    let retried := (store.refusals rounds).1
    let final := retried.attempt true moves
    let queued := store.waiting ++ store.queuedIn rounds ++ retried.queuedBy moves
    (store.refusals rounds).2 = [] ∧
      (retried.moved moves).1.commit = (retried.moved moves).1.commitIf true ∧
      final.2.1 = .ok [] ∧
      final.2.2 = (retried.waiting ++ retried.queuedBy moves).filter final.1.hears ∧
      final.1.waiting = [] ∧
      store.lostIn rounds ++ (retried.waiting ++ retried.queuedBy moves) = queued ∧
      (final.2.2 = queued.filter final.1.hears ↔ (store.lostIn rounds).filter final.1.hears = []) := by
  intro retried final queued
  obtain ⟨hretried, hsilent, hsplit, -⟩ := hopen.refusals rounds
  obtain ⟨hlast, -, -⟩ := hretried.moved moves
  obtain ⟨hresult, hempty⟩ := hretried.attempt_true moves
  have hsent : final.2.2 = (retried.waiting ++ retried.queuedBy moves).filter final.1.hears := congrArg Prod.snd hresult
  have hqueued : store.lostIn rounds ++ (retried.waiting ++ retried.queuedBy moves) = queued := by
    rw [← List.append_assoc, hsplit]
  refine ⟨hsilent, ?_, congrArg Prod.fst hresult, hsent, hempty, hqueued, ?_⟩
  · rw [commit, hlast.saved]
  · rw [hsent, ← hqueued, List.filter_append (store.lostIn rounds), List.self_eq_append_left]

/-! ### An announcement before a refused attempt -/

/-- A store that listens on one channel, with a transaction and so many announcements on its queue. -/
def announcing (queue : List Notification) : Store := ⟨⟨⟨[], queue⟩, 0, 0, none⟩, some ⟨[], []⟩, true, ["c"]⟩

/-- A statement that announces something on that channel. -/
def announcement : Move := .query "INSERT INTO tcn_queue (channel, payload) VALUES ($1, $2)" [.string "c", .string "p"]

theorem open_announcing (queue : List Notification) : (announcing queue).Open := ⟨rfl, rfl⟩

theorem perform_announcement (queue : List Notification) : (announcing queue).perform announcement.call =
    (announcing (queue ++ [⟨"c", "p"⟩]), .ok [], []) := by
  cbv

theorem moved_announcement (queue : List Notification) :
    (announcing queue).moved [announcement] = (announcing (queue ++ [⟨"c", "p"⟩]), []) := by
  rw [moved, perform_announcement]
  rfl

theorem attempt_announcement (queue : List Notification) : (announcing queue).attempt false [announcement] =
    (announcing [], .error .refused, []) := by
  rw [attempt, moved_announcement]
  rfl

theorem commit_sends_again : (announcing []).Open ∧
    ((announcing []).refusals [[announcement], [announcement]]).2 = [] ∧
    (((announcing []).refusals [[announcement], [announcement]]).1.attempt true [announcement]).2.2 =
      [⟨"c", "p"⟩] := by
  have hopen := open_announcing []
  have hsends := commit_sends hopen [[announcement], [announcement]] [announcement]
  refine ⟨hopen, hsends.1, hsends.2.2.2.1.trans ?_⟩
  rw [refusals, refusals, refusals, attempt_announcement, attempt_announcement, queuedBy, perform_announcement,
    attempt, moved_announcement]
  cbv

/-- What was announced before a refused attempt is never sent, though the transaction goes on and is committed. -/
theorem refused_commit_loses : (announcing []).Open ∧ (announcing []).queuedBy [announcement] = [⟨"c", "p"⟩] ∧
    ((announcing []).attempt true [announcement]).2 = (.ok [], [⟨"c", "p"⟩]) ∧
    (((announcing []).refusals [[announcement]]).1.attempt true []).2 = (.ok [], []) := by
  refine ⟨open_announcing [], ?_, ?_, ?_⟩
  · rw [queuedBy, perform_announcement]
    rfl
  · rw [attempt, moved_announcement]
    cbv
  · rw [refusals, refusals, attempt_announcement]
    rfl

end Store

end Dossier
