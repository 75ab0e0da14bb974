import Dossier.Graph.Basic

/-!
Graphs and trees: a value is loaded with one node for each container, children before their parents, and a
graph without a cycle is written out as a value again.
-/

namespace Dossier

namespace Graph

mutual

/-- Adds the containers of a value and gives the slot that holds the value. -/
def load (g : Graph) : Json → Graph × Slot
  | .object members =>
    let (g, fields) := loadMembers g members
    let (g, id) := g.alloc (.object fields)
    (g, .node id)
  | .array values =>
    let (g, slots) := loadItems g values
    let (g, id) := g.alloc (.array slots)
    (g, .node id)
  | scalar => (g, .value scalar)

def loadMembers (g : Graph) : List (String × Json) → Graph × List (String × Slot)
  | [] => (g, [])
  | (name, value) :: rest =>
    let (g, slot) := load g value
    let (g, fields) := loadMembers g rest
    (g, (name, slot) :: fields)

def loadItems (g : Graph) : List Json → Graph × List Slot
  | [] => (g, [])
  | value :: rest =>
    let (g, slot) := load g value
    let (g, slots) := loadItems g rest
    (g, slot :: slots)

end

/-- The graph of a value. -/
def ofJson (value : Json) : Graph :=
  let (g, slot) := empty.load value
  { g with root := slot }

/-- Loads values one after another and gives the nodes of those that are containers. -/
def loadNodes : Graph → List Json → Graph × List Nat
  | g, [] => (g, [])
  | g, value :: rest =>
    let (g, slot) := g.load value
    let (g, ids) := loadNodes g rest
    (g, slot.target?.toList ++ ids)

/-- The value of a slot below the nodes `above`, which it must not lead back to. Known nodes on a path are
distinct, so a depth of one more than their number is never used up. -/
def slotJson (g : Graph) : Nat → List Nat → Slot → Except GraphFault Json
  | _, _, .value value => .ok value
  | 0, _, .node id => .error (.cycle id)
  | depth + 1, above, .node id =>
    if above.contains id then .error (.cycle id)
    else match g.nodes[id]? with
      | none => .error (.unknownNode id)
      | some (.object fields) => do
        let members ← fields.mapM fun (name, slot) => do
          return (name, ← slotJson g depth (id :: above) slot)
        return Json.ofPairs members
      | some (.array items) => do
        return .array (← items.mapM (slotJson g depth (id :: above)))

def toJson? (g : Graph) : Except GraphFault Json := g.slotJson (g.nodes.length + 1) [] g.root

def nodeJson? (g : Graph) (id : Nat) : Except GraphFault Json :=
  g.slotJson (g.nodes.length + 1) [] (.node id)

end Graph

end Dossier
