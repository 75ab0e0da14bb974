import Dossier.Storage.Store

/-!
The connection of a session to its storage, as a value: every call is written down, may be made to fail,
and may take time. Storage is either a script of answers or the bundled store.
-/

namespace Dossier

/-- What a call led to: rows or a fault, announcements, and the milliseconds it took. -/
structure Outcome where
  rows : Except ExecutionFault (List Row)
  sent : List Notification
  took : Nat

inductive Backend where
  | scripted (answers : List (Except ExecutionFault (List Row)))
  | store (bundled : Store)

namespace Backend

def isScripted : Backend → Bool
  | .scripted _ => true
  | .store _ => false

/-- Adds an answer to the end of a script; the store has answers of its own. -/
def addAnswer (backend : Backend) (rows : Except ExecutionFault (List Row)) : Backend :=
  match backend with
  | .scripted answers => .scripted (answers ++ [rows])
  | .store bundled => .store bundled

/-- Performs a call. A script answers queries in turn, and with no rows when it is used up. -/
def perform (backend : Backend) (call : Call) :
    Backend × Except ExecutionFault (List Row) × List Notification :=
  match backend with
  | .scripted answers =>
    match call, answers with
    | .query _ _, answer :: rest => (.scripted rest, answer, [])
    | _, _ => (.scripted answers, .ok [], [])
  | .store bundled =>
    let (bundled, rows, sent) := bundled.perform call
    (.store bundled, rows, sent)

end Backend

structure Connection where
  backend : Backend
  /-- The kinds of call that fail, with what they report. -/
  failing : List (CallKind × String)
  /-- The milliseconds that the next slow call takes. -/
  delay : Nat
  /-- Every call so far, in order. -/
  log : List Call
  /-- Whether storage accepted each of these calls. -/
  verdicts : List Bool

namespace Connection

def ofBackend (backend : Backend) : Connection := ⟨backend, [], 0, [], []⟩

def addAnswer (connection : Connection) (rows : Except ExecutionFault (List Row)) : Connection :=
  { connection with backend := connection.backend.addAnswer rows }

/-- Makes calls of a kind fail with a message, or succeed again. -/
def setFailing (connection : Connection) (kind : CallKind) (message : Option String) : Connection :=
  let others := connection.failing.filter (·.1 != kind)
  { connection with failing := (message.map (kind, ·)).toList ++ others }

/-- Hands a call to storage, unless it has to fail. -/
def ask (connection : Connection) (call : Call) :
    Backend × Except ExecutionFault (List Row) × List Notification :=
  match connection.failing.lookup call.kind with
  | some message => (connection.backend, .error (.reported message), [])
  | none => connection.backend.perform call

/-- Performs a call: lets its delay pass, and writes it down with the verdict of storage. -/
def perform (connection : Connection) (call : Call) : Connection × Outcome :=
  let took := if call.isSlow then connection.delay else 0
  let (backend, rows, sent) := connection.ask call
  ({ connection with
      backend
      delay := if call.isSlow then 0 else connection.delay
      log := connection.log ++ [call]
      verdicts := connection.verdicts ++ [rows.isOk] },
    ⟨rows, sent, took⟩)

end Connection

end Dossier
