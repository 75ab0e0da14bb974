import Dossier.Session.Records
import Dossier.Session.Subscription

/-!
Scripts of a session: everything that callers, storage and time can do to it, one step after another.
-/

namespace Dossier

/-- What a caller asks of a session. -/
inductive Request where
  | execute (sql : String) (params : List Json)
  | create (kind : Kind) (record : Json)
  | createDocument (typeName : String) (content : Json)
  | createType (name : String) (schema metadata : Json)
  | read (kind : Kind) (id : String)
  | search (kind : Kind) (filter : Json) (traits : Traits)
  | searchDocuments (typeName : String) (filter : Json) (traits : Traits)
  | count (kind : Kind) (filter : Json)
  | update (kind : Kind) (record : Json)
  | delete (kind : Kind) (id : String)
  | getType (name : String)
  | subscribe (event : String)
  | unsubscribe (event : String)
  | subscriptions (event : String)
  | finish (ending : Session.Ending)
  | fetch
  | fetchSingle
  | fetchFirst
  deriving Repr, Inhabited

/-- What storage and time do. -/
inductive Circumstance where
  | answer (rows : Except ExecutionFault (List Row))
  | fail (kind : CallKind) (message : Option String)
  | delay (duration : Nat)
  | announce (notification : Notification)
  | sleep (duration : Nat)

inductive Step where
  | request (request : Request)
  | overlap (first second : Session.Ending)
  | circumstance (circumstance : Circumstance)

inductive Reply where
  | done
  | value (value : Option Json)
  | number (count : Nat)
  | event (id : EventId)
  | both (first second : Except Fault Unit)
  deriving Inhabited

namespace Session

def answerRequest : Request → Work Reply
  | .execute sql params => return .value (some (.array ((← execute sql params).map .object)))
  | .create kind record => return .value (← create kind record)
  | .createDocument typeName content => return .value (← createDocument typeName content)
  | .createType name schema metadata => return .value (← createType name schema metadata)
  | .read kind id => return .value (← read kind id)
  | .search kind filter traits => return .value (← search kind filter traits)
  | .searchDocuments typeName filter traits => return .value (← searchDocuments typeName filter traits)
  | .count kind filter => return .number (← count kind filter)
  | .update kind record => return .value (← update kind record)
  | .delete kind id => return .value (some (.bool (← delete kind id)))
  | .getType name => return .value (← getType name)
  | .subscribe event => return .event (← subscribe event)
  | .unsubscribe event => return .event (← unsubscribe event)
  | .subscriptions event => return .number (← subscriptions event)
  | .finish ending => do
    finish ending
    return .done
  | .fetch => return .value (← fetch)
  | .fetchSingle => return .value (← fetchSingle)
  | .fetchFirst => return .value (← fetchFirst)

/-- Changes the connection behind a session. -/
def onConnection (f : Connection → Connection) (s : Session) : Session :=
  { s with connection := f s.connection }

def happen (circumstance : Circumstance) (s : Session) : Session :=
  match circumstance with
  | .answer rows => s.onConnection (·.addAnswer rows)
  | .fail kind message => s.onConnection (·.setFailing kind message)
  | .delay duration => s.onConnection fun connection => { connection with delay := duration }
  | .announce notification => if s.connection.backend.isScripted then s.deliver [notification] else s
  | .sleep duration => s.sleep duration

/-- Takes one step; whatever is due by then is done before the next. -/
def step (s : Session) : Step → Except Fault Reply × Session
  | .request request =>
    let (reply, s) := (answerRequest request).run s
    (reply, s.watch)
  | .overlap first second =>
    let ((one, two), s) := s.finishTwice first second
    (.ok (.both one two), s.watch)
  | .circumstance circumstance => (.ok .done, (s.happen circumstance).watch)

/-- The session after a script. -/
def after (script : List Step) (s : Session) : Session := script.foldl (fun s next => (s.step next).2) s

end Session

end Dossier
