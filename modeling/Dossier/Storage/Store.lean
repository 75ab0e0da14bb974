import Dossier.Storage.Call
import Dossier.Storage.Database

/-!
The bundled store: a database with at most one open transaction, and the channels that are listened to.
A commit empties the queue of announcements and sends those whose channels are listened to.
-/

namespace Dossier

/-! ### Migrations from the version a store has to that of the schema, one step at a time -/

namespace Migration

def schemaVersion : Int := 1

/-- The steps that are still to be taken, in order. -/
def pending (current : Int) : List Int :=
  (List.range (schemaVersion - current).toNat).map fun (n : Nat) => current + 1 + (n : Int)

/-- Takes steps until one is refused. -/
def takeSteps (apply : Int → σ → Except Fault σ) : List Int → σ → σ × Except Fault Unit
  | [], state => (state, .ok ())
  | step :: rest, state =>
    match apply step state with
    | .ok next => takeSteps apply rest next
    | .error fault => (state, .error fault)

/-- Takes every pending step, and gives the version that is reached. -/
def run (apply : Int → σ → Except Fault σ) (current : Int) (state : σ) : σ × Except Fault Int :=
  let (state, result) := takeSteps apply (pending current) state
  (state, result.map fun _ => max current schemaVersion)

end Migration

/-! ### The store -/

structure Store where
  database : Database
  /-- The data as it was before the open transaction, if there is one. -/
  saved : Option Data
  connected : Bool
  listening : List String
  deriving Inhabited

namespace Store

def fresh (evaluator : Option Evaluator) : Store := ⟨Database.fresh evaluator, none, true, []⟩

/-- A store with a result. -/
abbrev Performed := Store × Except ExecutionFault (List Row) × List Notification

/-- Does something that needs the connection. -/
def whileConnected (store : Store) (action : Performed) : Performed :=
  if store.connected then action else (store, .error .closed, [])

def begin (store : Store) : Performed :=
  store.whileConnected <|
    if store.saved.isSome then (store, .error .refused, [])
    else ({ store with saved := some store.database.data }, .ok [], [])

/-- Takes everything off the queue. -/
def drain (store : Store) : Store × List Notification :=
  let data := { store.database.data with queue := [] }
  ({ store with database := { store.database with data } }, store.database.data.queue)

/-- Empties the queue and ends the transaction, if the end is accepted. -/
def commitIf (accepted : Bool) (store : Store) : Performed :=
  store.whileConnected <|
    let (store, queued) := store.drain
    if accepted then
      ({ store with saved := none }, .ok [], queued.filter fun n => store.listening.contains n.channel)
    else (store, .error .refused, [])

/-- Commits; without a transaction this is refused. -/
def commit (store : Store) : Performed := store.commitIf store.saved.isSome

/-- Takes back what the transaction did, if there is one. -/
def undo (store : Store) : Store :=
  match store.saved with
  | some data => { store with database := { store.database with data }, saved := none }
  | none => store

def disconnect (store : Store) : Store := { store.undo with connected := false, listening := [] }

def listen (store : Store) (channel : String) : Store :=
  if store.listening.contains channel then store
  else { store with listening := store.listening ++ [channel] }

def unlisten (store : Store) (channel : String) : Store :=
  { store with listening := store.listening.filter (· != channel) }

def query (store : Store) (sql : String) (params : List Json) : Performed :=
  store.whileConnected <|
    match store.database.query sql params with
    | .ok (database, rows) => ({ store with database }, .ok rows, [])
    | .error cause => (store, .error cause, [])

def perform (store : Store) : Call → Performed
  | .begin => store.begin
  | .commit => store.commit
  | .rollback => (store.undo, .ok [], [])
  | .disconnect => (store.disconnect, .ok [], [])
  | .listen channel => (store.listen channel, .ok [], [])
  | .unlisten channel => (store.unlisten channel, .ok [], [])
  | .query sql params => store.query sql params

/-! ### Versions -/

def currentVersion (store : Store) : Except Fault Int :=
  if store.connected then .ok store.database.version else .error (.execution .closed)

/-- Applies a migration. There is one, which finds its tables made and records the version. -/
def applyMigration (step : Int) (store : Store) : Except Fault Store :=
  if step = 1 then
    if store.connected then
      match store.database.recordVersion step with
      | .ok database => .ok { store with database }
      | .error cause => .error (.execution cause)
    else .error (.execution .closed)
  else .error (.notFound (.migration step))

def migrate (store : Store) : Store × Except Fault Int :=
  match store.currentVersion with
  | .ok current => Migration.run applyMigration current store
  | .error fault => (store, .error fault)

end Store

/-- Announcements on their way to the one who takes the mailbox. -/
structure Mailbox where
  waiting : List Notification
  taken : Bool
  deriving Repr, Inhabited

namespace Mailbox

def empty : Mailbox := ⟨[], false⟩

def post (sent : List Notification) (mailbox : Mailbox) : Mailbox :=
  { mailbox with waiting := mailbox.waiting ++ sent }

/-- Takes the mailbox, and says whether it could still be taken. -/
def take (mailbox : Mailbox) : Mailbox × Bool := ({ mailbox with taken := true }, !mailbox.taken)

/-- What the holder of the mailbox finds in it. -/
def collect (mailbox : Mailbox) : Mailbox × List Notification :=
  if mailbox.taken then ({ mailbox with waiting := [] }, mailbox.waiting) else (mailbox, [])

end Mailbox

end Dossier
