import Dossier.Graph.Copy
import Dossier.Graph.Expand

/-!
Compaction: the copies of each identity are merged, one canonical copy of each but the root's own is kept
under the root, the fields named for an identity hold the bare identity, and slots that lead back to their
own container are cut.
-/

namespace Dossier

namespace Graph

def rootIdentity (g : Graph) : Option String := g.root.target?.bind g.identity?

/-- Copies the first node of an identity, unless the identity is the root's. -/
def snapshot (index : Index) (root : Option String) (state : Graph × List (String × Nat))
    (identity : String) : Graph × List (String × Nat) :=
  if root = some identity then state
  else match index.cursors identity with
    | [] => state
    | cursor :: _ =>
      let (g, copy) := state.1.deepCopy cursor.node
      (g, state.2 ++ [(identity, copy)])

/-- One canonical copy for each identity but the root's. -/
def snapshots (g : Graph) (index : Index) : Graph × List (String × Nat) :=
  index.identities.foldl (snapshot index g.rootIdentity) (g, [])

/-- Puts at a location what stands there for an identity with a canonical copy: the bare identity in a
field of its name, and a new copy elsewhere. -/
def replaceCopied (identity : String) (copy : Nat) (position : Position) (location : Location)
    (g : Graph) : Graph :=
  if position = .field identity then g.put location (.text identity)
  else
    let (g, again) := g.deepCopy copy
    g.put location (.node again)

/-- Puts at a location what stands there for an identity without one: an object with the identity alone in
a field of its name, and otherwise what was there. -/
def replaceUncopied (identity : String) (position : Position) (location : Location) (g : Graph) : Graph :=
  if position = .field identity then
    let (g, stub) := g.alloc (.object [(identityName, .text identity)])
    g.put location (.node stub)
  else g

def replaceAt (canonical : List (String × Nat)) (identity : String) (g : Graph) (location : Location) :
    Graph :=
  match location with
  | .root => g
  | .slot _ position =>
    match canonical.lookup identity with
    | some copy => replaceCopied identity copy position location g
    | none => replaceUncopied identity position location g

/-- Replaces what stands at every location of every identity. -/
def replaceAll (index : Index) (canonical : List (String × Nat)) (g : Graph) : Graph :=
  index.identities.foldl
    (fun g identity => (index.cursors identity).foldl
      (fun g cursor => cursor.locations.foldl (replaceAt canonical identity) g) g) g

/-- Keeps the canonical copies under the root, if it is an object and there are any. -/
def attachCanonical (canonical : List (String × Nat)) (g : Graph) : Graph :=
  match g.root with
  | .node root =>
    if !canonical.isEmpty && g.isObject root then
      let (g, refs) := g.alloc (.object (canonical.map fun (identity, copy) => (identity, .node copy)))
      g.setField root refsName (.node refs)
    else g
  | .value _ => g

/-- The merged graph with canonical copies under the root and in place of what they stand for. -/
def externalized (g : Graph) : Graph :=
  let g := g.unified
  let index := g.scan true
  let (g, canonical) := g.snapshots index
  attachCanonical canonical (replaceAll index canonical g)

/-- Cuts every slot that leads back to its own container: the identity of what it held is left there, or
null. -/
def severed (g : Graph) : Graph :=
  (g.scan true).circular.foldl
    (fun g cursor => cursor.write ((cursor.identity.map Slot.text).getD .null) g) g

def compacted (g : Graph) : Graph := g.externalized.severed

/-- The compact form of a document. -/
def compactJson (document : Json) : Except GraphFault Json := (ofJson document).compacted.toJson?

end Graph

end Dossier
