import Dossier.Fault

/-!
Object graphs. Containers are nodes of an arena and are known by their numbers; every slot of a container
holds a plain value or points to a node, so one node can stand in many slots and a slot can lead back to
its own container.
-/

namespace Dossier

inductive Slot where
  | value (value : Json)
  | node (id : Nat)
  deriving Repr, Inhabited

namespace Slot

def null : Slot := .value .null

def text (s : String) : Slot := .value (.string s)

def same : Slot → Slot → Bool
  | .value a, .value b => a.same b
  | .node a, .node b => a == b
  | _, _ => false

/-- Whether the slot holds something: null, false, zero and the empty text are nothing. -/
def truthy : Slot → Bool
  | .node _ => true
  | .value .null => false
  | .value (.bool b) => b
  | .value (.number n) => !n.isZero
  | .value (.string s) => !s.isEmpty
  | .value _ => true

def target? : Slot → Option Nat
  | .node id => some id
  | .value _ => none

end Slot

inductive Node where
  | object (fields : List (String × Slot))
  | array (items : List Slot)
  deriving Repr, Inhabited

/-- Where a slot stands in its container. -/
inductive Position where
  | field (name : String)
  | index (index : Nat)
  deriving DecidableEq, Repr, Inhabited

inductive Location where
  | root
  | slot (parent : Nat) (position : Position)
  deriving DecidableEq, Repr, Inhabited

namespace Node

/-- The first slot of that name. -/
def find? : List (String × Slot) → String → Option Slot
  | [], _ => none
  | (key, slot) :: rest, name => if key = name then some slot else find? rest name

/-- Replaces the first slot of that name, or adds one at the end. -/
def assign (name : String) (slot : Slot) : List (String × Slot) → List (String × Slot)
  | [] => [(name, slot)]
  | (key, old) :: rest => if key = name then (key, slot) :: rest else (key, old) :: assign name slot rest

/-- Removes the first slot of that name. -/
def remove (name : String) : List (String × Slot) → List (String × Slot)
  | [] => []
  | (key, slot) :: rest => if key = name then rest else (key, slot) :: remove name rest

/-- The slots of a node with their positions. -/
def children : Node → List (Position × Slot)
  | .object fields => fields.map fun (name, slot) => (.field name, slot)
  | .array items => items.zipIdx.map fun (slot, index) => (.index index, slot)

def slots : Node → List Slot
  | .object fields => fields.map Prod.snd
  | .array items => items

/-- The node with other slots in the places of its own. -/
def withSlots (slots : List Slot) : Node → Node
  | .object fields => .object ((fields.map Prod.fst).zip slots)
  | .array _ => .array slots

end Node

structure Graph where
  nodes : List Node
  root : Slot
  deriving Repr, Inhabited

namespace Graph

def empty : Graph := ⟨[], .null⟩

/-- Adds a node and gives its number. -/
def alloc (g : Graph) (node : Node) : Graph × Nat := ({ g with nodes := g.nodes ++ [node] }, g.nodes.length)

def node? (g : Graph) (id : Nat) : Except GraphFault Node :=
  match g.nodes[id]? with
  | some node => .ok node
  | none => .error (.unknownNode id)

def setNode (g : Graph) (id : Nat) (node : Node) : Graph := { g with nodes := g.nodes.set id node }

/-- The slots of an object; nothing for arrays and unknown nodes. -/
def fields (g : Graph) (id : Nat) : List (String × Slot) :=
  match g.nodes[id]? with
  | some (.object fields) => fields
  | _ => []

/-- The slots of an array; nothing for objects and unknown nodes. -/
def items (g : Graph) (id : Nat) : List Slot :=
  match g.nodes[id]? with
  | some (.array items) => items
  | _ => []

def isObject (g : Graph) (id : Nat) : Bool :=
  match g.nodes[id]? with
  | some (.object _) => true
  | _ => false

def isArray (g : Graph) (id : Nat) : Bool :=
  match g.nodes[id]? with
  | some (.array _) => true
  | _ => false

def children (g : Graph) (id : Nat) : List (Position × Slot) :=
  match g.nodes[id]? with
  | some node => node.children
  | none => []

/-- The nodes that the slots of a node point to. -/
def targets (g : Graph) (id : Nat) : List Nat :=
  match g.nodes[id]? with
  | some node => node.slots.filterMap Slot.target?
  | none => []

def field? (g : Graph) (id : Nat) (name : String) : Option Slot := Node.find? (g.fields id) name

/-- Assigns a slot of an object; arrays and unknown nodes stay as they are. -/
def setField (g : Graph) (id : Nat) (name : String) (slot : Slot) : Graph :=
  if g.isObject id then g.setNode id (.object (Node.assign name slot (g.fields id))) else g

def removeField (g : Graph) (id : Nat) (name : String) : Graph :=
  if g.isObject id then g.setNode id (.object (Node.remove name (g.fields id))) else g

/-- Adds a slot at the end of an array; objects and unknown nodes stay as they are. -/
def push (g : Graph) (id : Nat) (slot : Slot) : Graph :=
  if g.isArray id then g.setNode id (.array (g.items id ++ [slot])) else g

/-- Puts a slot at a location, if it is there. -/
def put (g : Graph) (location : Location) (slot : Slot) : Graph :=
  match location with
  | .root => { g with root := slot }
  | .slot parent (.field name) => g.setField parent name slot
  | .slot parent (.index index) =>
    if g.isArray parent then g.setNode parent (.array ((g.items parent).set index slot)) else g

/-- The identity of an object: its `id`, when that is a text and not empty. -/
def identity? (g : Graph) (id : Nat) : Option String :=
  match g.field? id identityName with
  | some (.value (.string text)) => if text.isEmpty then none else some text
  | _ => none

end Graph

end Dossier
