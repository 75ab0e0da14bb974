import Dossier.Json.Text
import Dossier.Storage.Octets

/-!
Values in columns of the store, and their exchange with JSON values.
-/

namespace Dossier

inductive Scalar where
  | null
  | integer (value : Int)
  | real (value : Binary64)
  /-- A real out of range. -/
  | infinite (negative : Bool)
  | text (value : String)
  | blob (octets : List Nat)
  deriving DecidableEq, Repr, Inhabited

namespace Scalar

def minInteger : Int := -Int.pow 2 63

def maxInteger : Int := Int.pow 2 63 - 1

def isInteger (i : Int) : Bool := decide (minInteger ≤ i) && decide (i ≤ maxInteger)

def ofNumber : Number → Scalar
  | .int i =>
    if isInteger i then .integer i
    else ((Binary64.ofInt? i).map Scalar.real).getD (.infinite (decide (i < 0)))
  | .real x => .real x

/-- Flags are stored as 1 and 0, and containers as their text. -/
def ofJson : Json → Scalar
  | .null => .null
  | .bool b => .integer (if b then 1 else 0)
  | .number n => ofNumber n
  | .string s => .text s
  | container => .text container.text

/-- Blobs are read as hexadecimal digits. -/
def toJson : Scalar → Json
  | .null | .infinite _ => .null
  | .integer i => .int i
  | .real x => .number (.real x)
  | .text s => .string s
  | .blob octets => .string (Octets.hex octets)

end Scalar

end Dossier
