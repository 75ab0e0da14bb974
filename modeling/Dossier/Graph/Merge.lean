import Dossier.Graph.Reach
import Dossier.Graph.Tree

/-!
Merging of partial copies. Two objects are united by giving each the attributes it lacks; of two values
one of which is nothing the other wins, arrays are joined without repeated elements, and objects are united
in turn unless both have identities of their own. No slot is given to a container that it leads to.
-/

namespace Dossier

namespace Graph

/-- Gives an object a slot, unless the slot leads to the object. -/
def adopt (g : Graph) (target : Nat) (name : String) (slot : Slot) : Graph :=
  if g.leadsTo slot target then g else g.setField target name slot

/-- Whether two elements of arrays count as one: by node, by identity, or by value. -/
def sameElement (g : Graph) : Slot → Slot → Bool
  | .value a, .value b => a.same b
  | .node a, .node b =>
    a == b || match g.identity? a, g.identity? b with
      | some x, some y => x == y
      | none, none =>
        match g.nodeJson? a, g.nodeJson? b with
        | .ok x, .ok y => x.same y
        | _, _ => false
      | _, _ => false
  | _, _ => false

/-- The elements of one array, and those of another that are not among them yet. -/
def joinedItems (g : Graph) (x y : Nat) : List Slot :=
  (g.items y).foldl
    (fun joined item => if joined.any (g.sameElement · item) then joined else joined ++ [item]) (g.items x)

/-- Gives an array the joined elements, except foreign ones that lead to it. -/
def adoptItems (g : Graph) (target : Nat) (joined : List Slot) : Graph :=
  let own := g.items target
  let kept := joined.filter fun item => own.any (·.same item) || !g.leadsTo item target
  g.setNode target (.array kept)

/-- Settles two different slots of one attribute of `a` and `b`; `unite` unites two objects below. -/
def settle (unite : Nat → Nat → Graph → Graph) (a b : Nat) (name : String) (left right : Slot)
    (g : Graph) : Graph :=
  match left.truthy, right.truthy with
  | false, true => g.adopt a name right
  | true, false => g.adopt b name left
  | false, false => g
  | true, true =>
    match left, right with
    | .node x, .node y =>
      if g.isArray x && g.isArray y then
        let joined := g.joinedItems x y
        (g.adoptItems x joined).adoptItems y joined
      else if g.isObject x && g.isObject y then
        if (g.identity? x).isNone || (g.identity? y).isNone then unite x y g else g
      else g
    | _, _ => g

/-- Brings one attribute of `b` to `a`. -/
def offer (unite : Nat → Nat → Graph → Graph) (a b : Nat) (g : Graph) (field : String × Slot) : Graph :=
  match g.field? a field.1 with
  | none => g.adopt a field.1 field.2
  | some existing =>
    if existing.same field.2 then g else g.settle unite a b field.1 existing field.2

/-- Brings one attribute of the other object to `b`, if it has none of that name. -/
def complete (b : Nat) (g : Graph) (field : String × Slot) : Graph :=
  if (g.field? b field.1).isNone then g.adopt b field.1 field.2 else g

/-- Unites two objects. A pair that is being united already is left alone; there are no more of them than
pairs of objects, which bounds the depth. -/
def unite : Nat → List (Nat × Nat) → Nat → Nat → Graph → Graph
  | 0, _, _, _, g => g
  | depth + 1, active, a, b, g =>
    if a == b || !g.isObject a || !g.isObject b || active.contains (a, b) then g
    else
      let g := (g.fields b).foldl (offer (unite depth ((a, b) :: active)) a b) g
      (g.fields a).foldl (complete b) g

def objectCount (g : Graph) : Nat := g.nodes.countP fun
  | .object _ => true
  | .array _ => false

/-- Unites two objects and what lies below them. -/
def union (g : Graph) (a b : Nat) : Graph := unite (g.objectCount * g.objectCount + 1) [] a b g

/-- One pass over the copies, each united with the first. -/
def mergePass (first : Nat) (others : List Nat) (g : Graph) : Graph :=
  others.foldl (fun g other => g.union first other) g

/-- Merges partial copies of one entity, in two passes. -/
def merge (g : Graph) : List Nat → Graph
  | [] => g
  | first :: others => mergePass first others (mergePass first others g)

/-- Merges partial copies given as values; those that are no containers are left out. -/
def mergeValues (values : List Json) : Except GraphFault (List Json) :=
  let (g, ids) := loadNodes empty values
  ids.mapM (g.merge ids).nodeJson?

end Graph

end Dossier
