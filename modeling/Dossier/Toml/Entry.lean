import Dossier.Settings.Value

/-!
The tables of a TOML text while it is read. A table is opened by one header at most, and arrays and inline
tables are complete where they stand.
-/

namespace Dossier.Toml

open Settings (Table Value)

/-- What made a table: a header of its own, the longer path of a header, or a dotted key. -/
inductive Origin where
  | header
  | passage
  | dotted
  deriving DecidableEq, Repr, Inhabited

/-- What stands under a name: a complete value, a table, or a list of tables, the last one first. -/
inductive Entry where
  | value (value : Value)
  | table (origin : Origin) (entries : List (String × Entry))
  | tables (items : List (List (String × Entry)))
  deriving Repr, Inhabited

abbrev Entries := List (String × Entry)

mutual

def Entry.toValue : Entry → Value
  | .value value => value
  | .table _ entries => .table (Entries.toTable entries)
  | .tables items => .list (Entries.toValues items).reverse

def Entries.toTable : List (String × Entry) → Table
  | [] => []
  | (name, entry) :: rest => (name, entry.toValue) :: Entries.toTable rest

def Entries.toValues : List (List (String × Entry)) → List Value
  | [] => []
  | entries :: rest => .table (Entries.toTable entries) :: Entries.toValues rest

end

namespace Entries

/-- Sets what stands under a name. -/
def set (name : String) (entry : Entry) (entries : Entries) : Entries :=
  (name, entry) :: entries.filter (·.1 != name)

/-- Puts a value under the last name of a key; nothing may stand there already, and a key of several names
must not end in a table that a header opened. -/
def put (value : Value) (name : String) (isOpen : Bool) (entries : Entries) : Option Entries :=
  if isOpen && (entries.lookup name).isNone then some (entries.set name (.value value)) else none

/-- Puts a value under a dotted key. The key goes through tables that no header opened and through the last
table of a list. `isOpen` says whether the key may end in the table it has come to. -/
def place (value : Value) : List String → (isOpen : Bool) → Entries → Option Entries
  | [], _, _ => none
  | [name], isOpen, entries => put value name isOpen entries
  | name :: rest, _, entries =>
    match entries.lookup name with
    | none => (place value rest true []).map fun inner => entries.set name (.table .dotted inner)
    | some (.table origin inner) =>
      if origin = .header then none
      else (place value rest true inner).map fun inner => entries.set name (.table origin inner)
    | some (.tables (last :: before)) =>
      (place value rest false last).map fun last => entries.set name (.tables (last :: before))
    | some _ => none

/-- Changes the table at the path of a header. In a list of tables the last one is meant. -/
def changeAt (change : Entries → Option Entries) : List String → Entries → Option Entries
  | [], entries => change entries
  | name :: rest, entries =>
    match entries.lookup name with
    | none => (changeAt change rest []).map fun inner => entries.set name (.table .passage inner)
    | some (.table origin inner) =>
      (changeAt change rest inner).map fun inner => entries.set name (.table origin inner)
    | some (.tables (last :: before)) =>
      (changeAt change rest last).map fun last => entries.set name (.tables (last :: before))
    | some _ => none

/-- Opens the table of a header. -/
def openTable (name : String) (entries : Entries) : Option Entries :=
  match entries.lookup name with
  | none => some (entries.set name (.table .header []))
  | some (.table .passage inner) => some (entries.set name (.table .header inner))
  | some _ => none

/-- Adds a table to a list of tables. -/
def addTable (name : String) (entries : Entries) : Option Entries :=
  match entries.lookup name with
  | none => some (entries.set name (.tables [[]]))
  | some (.tables items) => some (entries.set name (.tables ([] :: items)))
  | some _ => none

end Entries

end Dossier.Toml
