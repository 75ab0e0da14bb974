import Dossier.Graph.Index
import Dossier.Graph.Merge

/-!
Expansion: the canonical copies kept under the root are put back where their identities stand for them,
and all copies of each identity are merged.
-/

namespace Dossier

namespace Graph

/-- The root's attribute that holds canonical copies. -/
def refsName : String := "$refs"

/-- Merges the nodes of each identity. -/
def unified (g : Graph) : Graph := (g.scan false).groups.foldl merge g

/-- Puts the canonical copy in place of a text equal to the name of its own field. -/
def inlineField (refs id : Nat) (g : Graph) (field : String × Slot) : Graph :=
  match field.2 with
  | .value (.string identity) =>
    if field.1 = identity then
      match g.field? refs identity with
      | some canonical => g.setField id identity canonical
      | none => g
    else g
  | _ => g

/-- Inlines canonical copies into every object that the root leads to. -/
def inlineAll (refs root : Nat) (g : Graph) : Graph :=
  (g.reachable root).foldl (fun g id => (g.fields id).foldl (inlineField refs id) g) g

/-- Takes the canonical copies off the root and inlines them. Anything else under their name goes to the
end of the root. -/
def inlineRefs (g : Graph) : Graph :=
  match g.root with
  | .value _ => g
  | .node root =>
    match g.field? root refsName with
    | none => g
    | some (.node refs) =>
      if g.isObject refs then inlineAll refs root (g.removeField root refsName)
      else (g.removeField root refsName).setField root refsName (.node refs)
    | some other => (g.removeField root refsName).setField root refsName other

def expanded (g : Graph) : Graph := g.inlineRefs.unified

/-- The expanded form of a document. -/
def expandJson (document : Json) : Except GraphFault Json := (ofJson document).expanded.toJson?

end Graph

end Dossier
