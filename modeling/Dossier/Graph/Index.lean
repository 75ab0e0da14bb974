import Dossier.Graph.Basic

/-!
Where the identified objects of a graph stand. A depth-first visit from the root sights every slot that
points to a node: those that lead back to a node on the way to them are circular, and the others that hold
an identified object are its occurrences.
-/

namespace Dossier

/-- A slot that points to a node, as it was met on the way from the root. -/
structure Sighting where
  node : Nat
  location : Location
  circular : Bool
  deriving Repr

/-- A node with the locations where it stands. -/
structure Cursor where
  identity : Option String
  node : Nat
  locations : List Location
  deriving Repr, Inhabited

/-- Writes a slot at every location of a cursor. -/
def Cursor.write (cursor : Cursor) (slot : Slot) (g : Graph) : Graph :=
  cursor.locations.foldl (fun g location => g.put location slot) g

/-- Cursors in the order in which their nodes were first met. -/
structure Index where
  entities : List Cursor
  circular : List Cursor
  deriving Repr, Inhabited

namespace Index

/-- Adds a location to the cursor of a node, which is new if there is none. -/
def record (identity : Option String) (node : Nat) (location : Location) : List Cursor → List Cursor
  | [] => [⟨identity, node, [location]⟩]
  | cursor :: rest =>
    if cursor.node = node then { cursor with locations := cursor.locations ++ [location] } :: rest
    else cursor :: record identity node location rest

def add (g : Graph) (index : Index) (sighting : Sighting) : Index :=
  let identity := g.identity? sighting.node
  if sighting.circular then
    { index with circular := record identity sighting.node sighting.location index.circular }
  else if identity.isSome then
    { index with entities := record identity sighting.node sighting.location index.entities }
  else index

/-- Identities in the order in which they were first met. -/
def identities (index : Index) : List String :=
  index.entities.foldl
    (fun found cursor => match cursor.identity with
      | some identity => if found.contains identity then found else found ++ [identity]
      | none => found) []

def cursors (index : Index) (identity : String) : List Cursor :=
  index.entities.filter (·.identity == some identity)

/-- The distinct nodes of each identity. -/
def groups (index : Index) : List (List Nat) :=
  index.identities.map fun identity => (index.cursors identity).map (·.node)

/-- The index without locations, and so without circular cursors. -/
def untracked (index : Index) : Index :=
  ⟨index.entities.map fun cursor => { cursor with locations := [] }, []⟩

end Index

namespace Graph

/-- Sightings of a slot and of everything below it that was not visited before, after those already made.
Every level visits a node that none above it did, so a depth of one more than the nodes is never used up. -/
def sight (g : Graph) : Nat → List Nat → List Nat × List Sighting → Location × Slot →
    List Nat × List Sighting
  | 0, _, state, _ => state
  | _, _, state, (_, .value _) => state
  | depth + 1, above, (visited, made), (location, .node id) =>
    if above.contains id then (visited, made ++ [⟨id, location, true⟩])
    else
      let made := made ++ [⟨id, location, false⟩]
      if visited.contains id then (visited, made)
      else
        (g.children id).foldl
          (fun state (position, slot) => sight g depth (id :: above) state (.slot id position, slot))
          (id :: visited, made)

def sightings (g : Graph) : List Sighting :=
  (g.sight (g.nodes.length + 2) [] ([], []) (.root, g.root)).2

/-- The index of the graph; without `track` it tells the nodes of each identity only. -/
def scan (g : Graph) (track : Bool) : Index :=
  let index := g.sightings.foldl (Index.add g) ⟨[], []⟩
  if track then index else index.untracked

end Graph

end Dossier
