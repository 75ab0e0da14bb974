import Dossier.Graph.Basic

/-!
The nodes that a node leads to, in depth-first order.
-/

namespace Dossier

namespace Graph

/-- Visits the nodes that wait, depth first; `found` holds those visited, in order. -/
def explore (g : Graph) : Nat → List Nat → List Nat → List Nat
  | 0, found, _ => found
  | _, found, [] => found
  | fuel + 1, found, id :: waiting =>
    if found.contains id then explore g fuel found waiting
    else explore g fuel (found ++ [id]) (g.targets id ++ waiting)

/-- How many slots the graph has. Every step of a visit uses up one of them, or the start. -/
def slotCount (g : Graph) : Nat := (g.nodes.flatMap (·.slots)).length

/-- The nodes reached from a node, itself first. -/
def reachable (g : Graph) (start : Nat) : List Nat := g.explore (g.slotCount + 1) [] [start]

/-- Whether a slot leads to a node. -/
def leadsTo (g : Graph) (slot : Slot) (target : Nat) : Bool :=
  match slot with
  | .node start => (g.reachable start).contains target
  | .value _ => false

end Graph

end Dossier
