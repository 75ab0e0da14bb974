import Dossier.Event.Router
import Dossier.Session.Phase
import Dossier.Settings.Basic
import Dossier.Storage.Connection

/-!
The state of a session, its clock and its watchdog. Time is a number of milliseconds that only sleeping
and slow storage calls move. Every call pushes the deadline on. The watchdog sleeps until the deadline it saw
last and then looks again: it sleeps on if the deadline has moved, waits for an end that is under way, and else
rolls the open transaction back.
-/

namespace Dossier

/-- What a session announces. -/
inductive Notice where
  /-- The watchdog rolled the transaction back, at a moment. -/
  | timeout (moment : Nat)
  | change (event : ChangeEvent)
  deriving Repr, Inhabited

/-- A finished call, with its statement if it had one. -/
structure Sample where
  name : String
  statement : Option (String × List Json)
  deriving Repr, Inhabited

structure Session where
  settings : Settings
  connection : Connection
  phase : Phase
  /-- Results that wait to be fetched, the oldest first. -/
  queue : List Json
  samples : List Sample
  /-- Records of types by name, and the names known to have none. -/
  types : List (String × Option Json)
  /-- The last version of each entity seen. -/
  entities : Members
  router : Router
  /-- Whether announcements still reach the router. -/
  attentive : Bool
  /-- Everything announced so far, the oldest first. -/
  notices : List Notice
  now : Nat
  deadline : Nat
  /-- Whether an end of the transaction is under way. -/
  finishing : Bool
  /-- When the watchdog wakes next. It has stopped if it does not. -/
  alarm : Option Nat
  /-- How many identities the session has made. -/
  identities : Nat

namespace Session

/-- The most notices that are kept for who reads them late. -/
def mostUnread : Nat := 64

/-- The notices after the first `count` ones. Of too many the oldest are lost. -/
def unread (count : Nat) (s : Session) : List Notice :=
  let notices := s.notices.drop count
  notices.drop (notices.length - mostUnread)

/-- Passes announcements on to the subscriptions that want them; malformed ones are dropped. -/
def deliver (sent : List Notification) (s : Session) : Session :=
  if s.attentive then
    let events := sent.flatMap fun notification =>
      match s.router.dispatch notification.channel notification.payload with
      | .ok events => events
      | .error _ => []
    { s with notices := s.notices ++ events.map .change }
  else s

/-- Performs a storage call. -/
def perform (request : Call) (s : Session) : Except ExecutionFault (List Row) × Session :=
  let (connection, outcome) := s.connection.perform request
  (outcome.rows, deliver outcome.sent { s with connection, now := s.now + outcome.took })

/-- Pushes the deadline on. -/
def touch (s : Session) : Session := { s with deadline := s.now + s.settings.timeout }

/-- Rolls the transaction back because of inactivity and gives the connection back. The transaction is over
at that moment, even if storage is busy with a call for some time yet. -/
def expire (moment : Nat) (s : Session) : Session :=
  let s := { s with phase := .rolledBack, notices := s.notices ++ [Notice.timeout moment], alarm := none }
  let s := (s.perform .rollback).2
  (s.perform .disconnect).2

/-- The watchdog wakes. If the deadline was pushed on it sleeps until the new one. An end that is under way
gets another timeout from this moment. -/
def turn (moment : Nat) (s : Session) : Session :=
  if moment < s.deadline then { s with alarm := some s.deadline }
  else if s.phase.isFinal then { s with alarm := none }
  else if s.finishing then
    { s with deadline := moment + s.settings.timeout, alarm := some (moment + s.settings.timeout) }
  else s.expire moment

/-- Gives the watchdog its turns up to the moment `wake`. -/
def elapse (wake : Nat) : Nat → Session → Session
  | 0, s => s
  | turns + 1, s =>
    match s.alarm with
    | some moment =>
      if moment ≤ wake then elapse wake turns (turn moment { s with now := max s.now moment }) else s
    | none => s

/-- Gives the watchdog every turn that is due by the moment `wake`. Each alarm is set later than the one
before, so there are no more turns than moments. -/
def pass (wake : Nat) (s : Session) : Session := s.elapse wake (wake + 1)

/-- Gives the watchdog the turns that came due during a call. -/
def watch (s : Session) : Session := s.pass s.now

/-- Lets time pass without a call. -/
def sleep (duration : Nat) (s : Session) : Session :=
  let wake := s.now + duration
  let s := s.pass wake
  { s with now := max s.now wake }

/-- Keeps a sample of a call, if samples are wanted. -/
def sample (name : String) (statement : Option (String × List Json)) (s : Session) : Session :=
  if s.settings.timing then { s with samples := s.samples ++ [⟨name, statement⟩] } else s

/-- A session over a connection on which the transaction is open. -/
def opened (settings : Settings) (connection : Connection) (attentive : Bool) : Session :=
  { settings, connection, phase := .active, queue := [], samples := [], types := [], entities := []
    router := .empty, attentive, notices := [], now := 0, deadline := settings.timeout, finishing := false
    alarm := some settings.timeout, identities := 0 }

/-- Begins a transaction. Where no inactivity is allowed at all, it is over at once. -/
def start (settings : Settings) (connection : Connection) (attentive : Bool) : Except Fault Session :=
  let (connection, outcome) := connection.perform .begin
  match outcome.rows with
  | .error cause => .error (.execution cause)
  | .ok _ => .ok (opened settings connection attentive).watch

end Session

end Dossier
