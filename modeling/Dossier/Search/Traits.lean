import Dossier.Fault
import Dossier.Text.Ascii

/-!
Traits of a search: its fields, ordering, grouping and paging. They are read from an object, whose members
are looked at in the order of their names and the first bad one is the fault, or from an array by position.
-/

namespace Dossier

inductive Limit where
  | all
  | rows (count : Nat)
  deriving DecidableEq, Repr, Inhabited

inductive Selection where
  | all
  | fields (fields : List Json)
  deriving Repr, Inhabited

def everything : String := "all"

def Limit.ofJson? : Json → Except JsonFault Limit
  | .null => .ok .all
  | .string text =>
    if Text.equalIgnoringCase text everything then .ok .all else .error (.invalidLimit (.string text))
  | value =>
    match value.natural? with
    | some count => .ok (.rows count)
    | none => .error (.invalidLimit value)

def Selection.ofJson? : Json → Except JsonFault Selection
  | .null => .ok .all
  | .string text =>
    if Text.equalIgnoringCase text everything then .ok .all else .error (.invalidFields (.string text))
  | .array items => .ok (.fields items)
  | other => .error (.invalidFields other)

structure Traits where
  fields : Selection
  order : List Json
  group : List Json
  limit : Limit
  offset : Option Nat
  count : Bool
  matchAny : Bool
  deriving Repr, Inhabited

namespace Traits

/-- All fields of every record, the oldest first. -/
def default : Traits := ⟨.all, [.array [.string "$created"]], [], .all, none, false, false⟩

def counting : Traits := { default with count := true }

def readList : Json → Except JsonFault (List Json)
  | .array items => .ok items
  | _ => .error .malformed

def readFlag : Json → Except JsonFault Bool
  | .bool flag => .ok flag
  | _ => .error .malformed

def readOffset : Json → Except JsonFault (Option Nat)
  | .null => .ok none
  | value =>
    match value.natural? with
    | some n => .ok (some n)
    | none => .error .malformed

/-- Sets one trait; unknown names change nothing. -/
def set (traits : Traits) (name : String) (value : Json) : Except JsonFault Traits :=
  match name with
  | "fields" => do return { traits with fields := ← Selection.ofJson? value }
  | "order" => do return { traits with order := ← readList value }
  | "group" => do return { traits with group := ← readList value }
  | "limit" => do return { traits with limit := ← Limit.ofJson? value }
  | "offset" => do return { traits with offset := ← readOffset value }
  | "count" => do return { traits with count := ← readFlag value }
  | "matchAny" => do return { traits with matchAny := ← readFlag value }
  | _ => .ok traits

def setAll (traits : Traits) : List (String × Json) → Except JsonFault Traits
  | [] => .ok traits
  | (name, value) :: rest => do setAll (← traits.set name value) rest

/-- The names of the traits in the order of an array. -/
def positions : List String := ["fields", "order", "group", "limit", "offset", "count", "matchAny"]

def ofJson? : Json → Except JsonFault Traits
  | .object members => default.setAll members
  | .array items => do
    let traits ← default.setAll (positions.zip items)
    if positions.length < items.length then .error .malformed else return traits
  | _ => .error .malformed

end Traits

end Dossier
