import Dossier.Session.State

/-!
Work of a session: steps that may fail and change the session either way. `run` is the one path to storage
for everything but the end of the transaction.
-/

namespace Dossier.Session

abbrev Work := ExceptT Fault (StateM Session)

/-- Goes on with a result, or fails with its fault. -/
def attempt (result : Except Fault α) : Work α := ExceptT.mk (pure result)

/-- Changes the session without a way to fail. -/
def change (f : Session → Session) : Work Unit := ExceptT.lift (modify f)

/-- Performs a storage call. -/
def call (request : Call) : Work (Except ExecutionFault (List Row)) := ExceptT.lift (perform request)

/-- Refuses an operation once the transaction is over. -/
def ensureOpen (operation : Operation) : Work Unit := do
  let s ← get
  if s.phase.isFinal then throw (.wrongPhase s.phase operation)

/-- Performs the work of an operation on an open session. If the watchdog acts before the work is done, the
operation fails whatever the work gave. -/
def run (operation : Operation) (statement : Option (String × List Json)) (work : Work α) : Work α := do
  ensureOpen operation
  let result ← ExceptT.lift work.run
  change (sample operation.name statement)
  change watch
  change touch
  ensureOpen operation
  attempt result

/-- Runs one statement. -/
def query (operation : Operation) (sql : String) (params : List Json) : Work (List Row) :=
  run operation (some (sql, params)) do
    match ← call (.query sql params) with
    | .ok rows => return rows
    | .error cause => throw (.execution cause)

/-- Adds a result to the queue. -/
def push (value : Json) : Work Unit := change fun s => { s with queue := s.queue ++ [value] }

/-- Keeps the last version of a record that has an identity. -/
def remember (record : Json) : Work Unit :=
  match (record.get? identityName).bind Json.string? with
  | some id => change fun s => { s with entities := Members.insert id record s.entities }
  | none => return

/-! ### The end of the transaction -/

/-- How a caller can end a transaction. -/
inductive Ending where
  | commit
  | rollback
  | disconnect
  deriving DecidableEq, Repr, Inhabited

namespace Ending

def operation : Ending → Operation
  | .commit => .commit
  | .rollback => .rollback
  | .disconnect => .disconnect

def phase : Ending → Phase
  | .commit => .committed
  | .rollback => .rolledBack
  | .disconnect => .disconnected

def request : Ending → Call
  | .commit => .commit
  | .rollback => .rollback
  | .disconnect => .disconnect

end Ending

/-- Adds the samples of the whole transaction. -/
def sampleWhole (s : Session) : Session :=
  (s.sample "transaction" none).sample "transaction:server" none

/-- Gives the connection back after a commit or a rollback; a disconnected session stops listening. -/
def release (ending : Ending) : Work Unit :=
  match ending with
  | .disconnect => change fun s => { s with attentive := false }
  | _ => do let _ ← call .disconnect

/-- Makes sure that the transaction is open and that no other end of it is under way. -/
def beginEnding (ending : Ending) : Work Unit := do
  let s ← get
  if s.phase.isFinal || s.finishing then throw (.wrongPhase s.phase ending.operation)
  change fun s => { s with finishing := true }

/-- Asks storage for the end that is under way. A refusal leaves the session open and counts as activity. -/
def conclude (ending : Ending) : Work Unit := do
  let answer ← call ending.request
  change watch
  change fun s => { s with finishing := false }
  match answer with
  | .error cause =>
    change touch
    throw (.execution cause)
  | .ok _ =>
    change fun s => { s with phase := ending.phase, alarm := none }
    change (sample ending.operation.name none)
    release ending
    change sampleWhole

/-- Ends the transaction. -/
def finish (ending : Ending) : Work Unit := do
  beginEnding ending
  conclude ending

/-- Ends the transaction while a second end is asked for before storage has answered the first. -/
def finishTwice (s : Session) (first second : Ending) :
    (Except Fault Unit × Except Fault Unit) × Session :=
  let (begun, s) := (beginEnding first).run s
  let (other, s) := (finish second).run s
  match begun with
  | .error fault => ((.error fault, other), s)
  | .ok () =>
    let (result, s) := (conclude first).run s
    ((result, other), s)

/-! ### Fetching of results, the oldest first -/

/-- Takes the oldest result, whatever it is. -/
def fetch : Work (Option Json) := do
  match (← get).queue with
  | [] => return none
  | value :: rest =>
    change fun s => { s with queue := rest }
    return some value

/-- The one record of a result, or nothing when it is empty; a record that stands alone is its own. -/
def onlyRecord : Json → Option Json
  | .array items => items.getLast?
  | .null => none
  | other => some other

def firstOf : Json → Option Json
  | .array items => items.head?
  | .null => none
  | other => some other

/-- How many records the oldest result holds, when it is a list. -/
def frontSize (s : Session) : Nat :=
  match s.queue with
  | .array items :: _ => items.length
  | _ => 0

/-- Takes the oldest result, which may hold one record at most; a result that holds more stays. -/
def fetchSingle : Work (Option Json) := do
  let size := (← get).frontSize
  if 1 < size then throw (.execution (.manyResults size))
  return (← fetch).bind onlyRecord

/-- Takes the oldest result and keeps its first record. -/
def fetchFirst : Work (Option Json) := do
  return (← fetch).bind firstOf

end Dossier.Session
