import Dossier.Number.Binary64

/-!
JSON values. An object is its members in the order of their names, each name once; `Members.insert` keeps
that order. Integers and binary fractions are different numbers, whatever their value.
-/

namespace Dossier

inductive Number where
  | int (value : Int)
  | real (value : Binary64)
  deriving DecidableEq, Repr, Inhabited

inductive Json where
  | null
  | bool (value : Bool)
  | number (value : Number)
  | string (value : String)
  | array (items : List Json)
  | object (members : List (String × Json))
  deriving Repr, Inhabited

abbrev Members := List (String × Json)

namespace Number

/-- Equality as numbers of one sort: an integer never equals a fraction. -/
def same : Number → Number → Bool
  | .int x, .int y => x == y
  | .real x, .real y => x.same y
  | _, _ => false

/-- The number as binary64; integers are rounded. -/
def toReal? : Number → Option Binary64
  | .int i => Binary64.ofInt? i
  | .real x => some x

def isZero : Number → Bool
  | .int i => i == 0
  | .real x => x.isZero

end Number

namespace Members

def get? : Members → String → Option Json
  | [], _ => none
  | (k, v) :: rest, name => if k = name then some v else get? rest name

def contains (members : Members) (name : String) : Bool := (members.get? name).isSome

/-- Sets a member, at its place in the order of names. -/
def insert (name : String) (value : Json) : Members → Members
  | [] => [(name, value)]
  | (k, v) :: rest =>
    if k = name then (name, value) :: rest
    else if name < k then (name, value) :: (k, v) :: rest
    else (k, v) :: insert name value rest

def erase (name : String) : Members → Members
  | [] => []
  | (k, v) :: rest => if k = name then rest else (k, v) :: erase name rest

/-- Members from any list; a later pair replaces an earlier one of the same name. -/
def ofList (pairs : List (String × Json)) : Members :=
  pairs.foldl (fun members pair => insert pair.1 pair.2 members) []

def names (members : Members) : List String := members.map Prod.fst

end Members

namespace Json

def ofPairs (pairs : List (String × Json)) : Json := .object (Members.ofList pairs)

def int (i : Int) : Json := .number (.int i)

def nat (n : Nat) : Json := .number (.int n)

/-- A member of an object; nothing for every other value. -/
def get? : Json → String → Option Json
  | .object members, name => Members.get? members name
  | _, _ => none

def string? : Json → Option String
  | .string s => some s
  | _ => none

def array? : Json → Option (List Json)
  | .array items => some items
  | _ => none

def object? : Json → Option Members
  | .object members => some members
  | _ => none

/-- The value as a natural number below `2 ^ 64`; fractions have none. -/
def natural? : Json → Option Nat
  | .number (.int i) => if 0 ≤ i && i < Int.pow 2 64 then some i.toNat else none
  | _ => none

def isContainer : Json → Bool
  | .array _ | .object _ => true
  | _ => false

mutual

/-- Equality of values, in which the two zeros are one number. -/
def same : Json → Json → Bool
  | .null, .null => true
  | .bool a, .bool b => a == b
  | .number a, .number b => a.same b
  | .string a, .string b => a == b
  | .array as, .array bs => sameItems as bs
  | .object as, .object bs => sameMembers as bs
  | _, _ => false

def sameItems : List Json → List Json → Bool
  | [], [] => true
  | a :: as, b :: bs => same a b && sameItems as bs
  | _, _ => false

def sameMembers : List (String × Json) → List (String × Json) → Bool
  | [], [] => true
  | (k, a) :: as, (l, b) :: bs => k == l && same a b && sameMembers as bs
  | _, _ => false

end

end Json

end Dossier
