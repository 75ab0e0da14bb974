import Dossier.Graph.Reach

/-!
Copies of everything that a node leads to, with its sharing and its cycles. The copies are numbered in
depth-first order, so they can be laid out at once. Only a slot that points to a number which is given out
by the copy itself makes the nodes to be copied change on the way; then they are copied in turn.
-/

namespace Dossier

/-! ### Numbering of distinct items in the order of their first appearance -/

structure Numbering (α : Type) where
  items : List α
  deriving Repr

namespace Numbering

variable {α : Type} [BEq α]

def empty : Numbering α := ⟨[]⟩

def number? (numbering : Numbering α) (item : α) : Option Nat := numbering.items.findIdx? (· == item)

def get? (numbering : Numbering α) (number : Nat) : Option α := numbering.items[number]?

/-- Numbers an item, and says whether it had its number already. -/
def add (numbering : Numbering α) (item : α) : Numbering α × Nat × Bool :=
  match numbering.number? item with
  | some number => (numbering, number, true)
  | none => (⟨numbering.items ++ [item]⟩, numbering.items.length, false)

def size (numbering : Numbering α) : Nat := numbering.items.length

end Numbering

namespace Graph

/-! ### Copies -/

/-- The slot in a copy, in which the node with number `k` in the order of copying is `first + k`. -/
def copySlot (first : Nat) (order : Numbering Nat) : Slot → Slot
  | .value value => .value value
  | .node id => .node (first + (order.number? id).getD 0)

def copyNode (first : Nat) (order : Numbering Nat) : Node → Node
  | .object fields => .object (fields.map fun (name, slot) => (name, copySlot first order slot))
  | .array items => .array (items.map (copySlot first order))

/-- The graph with the copies of some nodes laid out at its end. Unknown nodes are copied as empty arrays. -/
def layOut (g : Graph) (order : Numbering Nat) : Graph :=
  let copies := order.items.map fun id => copyNode g.nodes.length order ((g.nodes[id]?).getD (.array []))
  { g with nodes := g.nodes ++ copies }

/-- A graph that is being copied, with the copy of each node met so far. -/
abbrev Copying := Graph × List (Nat × Nat)

/-- Copies the slots of a node one after another. -/
def copySlots (copy : Copying → Nat → Copying × Nat) : Copying → List Slot → Copying × List Slot
  | state, [] => (state, [])
  | state, .value value :: rest =>
    let (state, slots) := copySlots copy state rest
    (state, .value value :: slots)
  | state, .node id :: rest =>
    let (state, new) := copy state id
    let (state, slots) := copySlots copy state rest
    (state, .node new :: slots)

/-- Copies a node, unless it has its copy already. The copy has its number before anything below it, and is
an empty array until all of that is copied. -/
def copyInTurn : Nat → Copying → Nat → Copying × Nat
  | 0, state, id => (state, id)
  | depth + 1, (g, copies), id =>
    match copies.lookup id with
    | some new => ((g, copies), new)
    | none =>
      let (g, new) := g.alloc (.array [])
      match g.nodes[id]? with
      | none => ((g, (id, new) :: copies), new)
      | some node =>
        let ((g, copies), slots) := copySlots (copyInTurn depth) (g, (id, new) :: copies) node.slots
        ((g.setNode new (node.withSlots slots), copies), new)

/-- No way of copying in turn is longer: each of the slots can double what there is to copy. -/
def copyDepth (g : Graph) : Nat := (g.nodes.length + g.slotCount + 2) * Nat.pow 2 (g.slotCount + 1)

/-- Copies everything that a node leads to, and gives the copy of the node. -/
def deepCopy (g : Graph) (start : Nat) : Graph × Nat :=
  let order : Numbering Nat := ⟨g.reachable start⟩
  let first := g.nodes.length
  if order.items.all fun id => decide (id < first) || decide (first + order.size ≤ id) then
    (g.layOut order, first)
  else
    let ((g, _), new) := copyInTurn g.copyDepth (g, []) start
    (g, new)

end Graph

end Dossier
