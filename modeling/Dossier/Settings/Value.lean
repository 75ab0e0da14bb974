import Dossier.Json.Basic

/-!
Values as settings files hold them. A table is its entries, each name once.
-/

namespace Dossier.Settings

inductive Value where
  | null
  | flag (value : Bool)
  | whole (value : Int)
  | fraction (value : Binary64)
  | infinite (negative : Bool)
  | notNumber
  | text (value : String)
  | list (items : List Value)
  | table (entries : List (String × Value))
  deriving Repr, Inhabited

abbrev Table := List (String × Value)

namespace Table

/-- Sets an entry, which comes last. -/
def set (entries : Table) (name : String) (value : Value) : Table :=
  entries.filter (·.1 != name) ++ [(name, value)]

end Table

namespace Value

def table? : Value → Option Table
  | .table entries => some entries
  | _ => none

/-- Whole numbers have 63 bits and a sign; larger ones are fractions. -/
def ofNumber : Number → Value
  | .int i =>
    if -Int.pow 2 63 ≤ i && i < Int.pow 2 63 then .whole i
    else ((Binary64.ofInt? i).map Value.fraction).getD (.infinite (decide (i < 0)))
  | .real x => .fraction x

mutual

def ofJson : Json → Value
  | .null => .null
  | .bool b => .flag b
  | .number n => ofNumber n
  | .string s => .text s
  | .array items => .list (ofItems items)
  | .object members => .table (ofMembers members)

def ofItems : List Json → List Value
  | [] => []
  | item :: rest => ofJson item :: ofItems rest

def ofMembers : List (String × Json) → Table
  | [] => []
  | (name, value) :: rest => (name, ofJson value) :: ofMembers rest

end

end Value

end Dossier.Settings
