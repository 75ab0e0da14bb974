import Dossier.Session.Work

/-!
Subscriptions of a session. The router is changed first and storage is asked to listen afterwards; a
refusal to listen takes the subscription back.
-/

namespace Dossier.Session

def parseEvent (text : String) : Except Fault EventId := (EventId.ofText? text).mapError .event

def setRouter (router : Router) : Work Unit := change fun s => { s with router }

/-- Asks storage to listen, and takes the subscription back if it refuses. -/
def listen (id : EventId) (channel : String) : Work Unit := do
  match ← call (.listen channel) with
  | .ok _ => return
  | .error cause =>
    setRouter ((← get).router.unsubscribe id).1
    throw (.execution cause)

def unlisten (channel : String) : Work Unit := do
  match ← call (.unlisten channel) with
  | .ok _ => return
  | .error cause => throw (.execution cause)

def subscribe (text : String) : Work EventId :=
  run .subscribe none do
    let id ← attempt (parseEvent text)
    let (router, channel) := (← get).router.subscribe id
    setRouter router
    match channel with
    | some channel => listen id channel
    | none => pure ()
    return id

def unsubscribe (text : String) : Work EventId :=
  run .unsubscribe none do
    let id ← attempt (parseEvent text)
    let (router, channel) := (← get).router.unsubscribe id
    setRouter router
    match channel with
    | some channel => unlisten channel
    | none => pure ()
    return id

/-- How many subscriptions an identifier has. -/
def subscriptions (text : String) : Work Nat := do
  let id ← attempt (parseEvent text)
  return (← get).router.count id

end Dossier.Session
