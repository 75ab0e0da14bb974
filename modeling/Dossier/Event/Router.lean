import Dossier.Event.Change

/-!
Subscriptions to events, counted by identifier and by channel. The first listener on a channel asks for
the channel to be opened, and the last one that leaves asks for it to be closed.
-/

namespace Dossier

structure Listener where
  filter : EventId
  count : Nat
  deriving Repr, Inhabited

/-- Raised for one subscription by one change of a row. -/
structure ChangeEvent where
  subscription : EventId
  event : EventId
  table : String
  action : Action
  deriving Repr, Inhabited

/-- The listeners, and for each open channel how many of them use it. -/
structure Router where
  listeners : List Listener
  users : List (String × Nat)
  deriving Repr, Inhabited

namespace Router

def empty : Router := ⟨[], []⟩

def find? (router : Router) (id : EventId) : Option Listener :=
  router.listeners.find? (·.filter.text == id.text)

/-- How many subscriptions an identifier has. -/
def count (router : Router) (id : EventId) : Nat := ((router.find? id).map (·.count)).getD 0

def isOpen (router : Router) (channel : String) : Bool := (router.users.lookup channel).isSome

/-- The open channels in order. -/
def channels (router : Router) : List String :=
  (router.users.map Prod.fst).mergeSort fun a b => decide (a ≤ b)

/-- Sets the count of a listener that is there. -/
def setCount (id : EventId) (count : Nat) (listeners : List Listener) : List Listener :=
  listeners.map fun listener =>
    if listener.filter.text == id.text then { listener with count } else listener

def setUsers (channel : String) (count : Nat) (users : List (String × Nat)) : List (String × Nat) :=
  users.map fun (name, old) => if name == channel then (name, count) else (name, old)

/-- Adds a user of a channel, and says whether the channel has to be opened. -/
def enter (channel : String) (users : List (String × Nat)) : List (String × Nat) × Bool :=
  match users.lookup channel with
  | some count => (setUsers channel (count + 1) users, false)
  | none => (users ++ [(channel, 1)], true)

/-- Takes a user off a channel, and says whether the channel has to be closed. -/
def leave (channel : String) (users : List (String × Nat)) : List (String × Nat) × Bool :=
  match users.lookup channel with
  | some count =>
    if 1 < count then (setUsers channel (count - 1) users, false)
    else (users.filter (·.1 != channel), true)
  | none => (users, false)

/-- Adds one subscription, and gives the channel to open if there is one. -/
def subscribe (router : Router) (id : EventId) : Router × Option String :=
  match router.find? id with
  | some listener => ({ router with listeners := setCount id (listener.count + 1) router.listeners }, none)
  | none =>
    let (users, opens) := enter id.channel router.users
    (⟨router.listeners ++ [⟨id, 1⟩], users⟩, if opens then some id.channel else none)

/-- Takes away one subscription, and gives the channel to close if there is one. An identifier without
subscriptions is ignored. -/
def unsubscribe (router : Router) (id : EventId) : Router × Option String :=
  match router.find? id with
  | none => (router, none)
  | some listener =>
    if 1 < listener.count then
      ({ router with listeners := setCount id (listener.count - 1) router.listeners }, none)
    else
      let (users, closes) := leave id.channel router.users
      (⟨router.listeners.filter (·.filter.text != id.text), users⟩,
        if closes then some id.channel else none)

/-- The event that a listener gets for a change. -/
def eventFor (change : RowChange) (name : String) (listener : Listener) : ChangeEvent :=
  ⟨listener.filter, ⟨listener.filter.typeName, some change.value, some name⟩, change.table, change.action⟩

/-- The events that an announcement on a channel raises, one for each listener that wants it. -/
def dispatch (router : Router) (channel payload : String) : Except EventFault (List ChangeEvent) := do
  let change ← RowChange.ofPayload? payload
  match change.eventName? with
  | none => return []
  | some name =>
    let wanted := router.listeners.filter fun listener =>
      listener.filter.channel == channel && listener.filter.accepts change.value name
    return wanted.map (eventFor change name)

end Router

end Dossier
