import Dossier.Storage.RealText
import Dossier.Storage.Scalar

/-!
Numbers as texts in the store: how texts are read as numbers, how numbers are written, and what the
affinity of a column makes of a value.
-/

namespace Dossier

/-- The sort of value that a column or an expression prefers. -/
inductive Affinity where
  | text
  | numeric
  | none
  deriving DecidableEq, Repr, Inhabited

namespace Scalar

open Text (digitsValue)

def isSpace (c : Char) : Bool := c == ' ' || ('\t' ≤ c && c ≤ '\r')

/-- The exponent at the start of a text, and what follows; none unless a digit comes. -/
def takeExponent (cs : List Char) : Int × List Char :=
  let signed (negative : Bool) (rest : List Char) : Int × List Char :=
    let digits := rest.takeWhile Text.isDigit
    let size := RealText.exponentSize digits
    if digits.isEmpty then (0, cs)
    else (if negative then -(size : Int) else (size : Int), rest.dropWhile Text.isDigit)
  match cs with
  | 'e' :: '-' :: rest | 'E' :: '-' :: rest => signed true rest
  | 'e' :: '+' :: rest | 'E' :: '+' :: rest => signed false rest
  | 'e' :: rest | 'E' :: rest => signed false rest
  | _ => (0, cs)

/-- The number at the start of a text after blanks, and what follows it; nothing without a digit. -/
def takeNumber (text : String) : Option (Scalar × List Char) :=
  let cs := text.toList.dropWhile isSpace
  let (negative, cs) : Bool × List Char := match cs with
    | '-' :: rest => (true, rest)
    | '+' :: rest => (false, rest)
    | _ => (false, cs)
  let whole := cs.takeWhile Text.isDigit
  let rest := cs.dropWhile Text.isDigit
  let (part, rest, pointed) : List Char × List Char × Bool := match rest with
    | '.' :: tail => (tail.takeWhile Text.isDigit, tail.dropWhile Text.isDigit, true)
    | _ => ([], rest, false)
  if whole.isEmpty && part.isEmpty then none
  else
    let (exponent, tail) := takeExponent rest
    let value : Int := if negative then -(digitsValue whole : Int) else (digitsValue whole : Int)
    if !pointed && tail.length == rest.length && isInteger value then some (.integer value, tail)
    else
      let (n, places) := RealText.significand whole part
      some (((RealText.read negative n (places + exponent)).map .real).getD (.infinite negative), tail)

/-- A real that is a whole number inside the bounds of 64 bits becomes an integer. -/
def compact : Scalar → Scalar
  | .real x =>
    if x.isIntegral && decide (minInteger < x.truncate) && decide (x.truncate < maxInteger) then
      .integer x.truncate
    else .real x
  | other => other

/-- The number that a whole text spells, blanks around it aside. -/
def number? (text : String) : Option Scalar :=
  match takeNumber text with
  | some (n, rest) => if rest.all isSpace then some n else none
  | none => none

/-- The number at the start of a text, or zero. -/
def leadingNumber (text : String) : Scalar := ((takeNumber text).map Prod.fst).getD (.integer 0)

def text? : Scalar → Option String
  | .integer i => some (toString i)
  | .real x => some (RealText.text x)
  | .infinite negative => some (if negative then "-Inf" else "Inf")
  | .text s => some s
  | _ => none

/-- A value as a column of the given affinity stores it. -/
def store (affinity : Affinity) (value : Scalar) : Scalar :=
  match affinity, value with
  | .text, .integer _ | .text, .real _ | .text, .infinite _ => (value.text?.map Scalar.text).getD value
  | .numeric, .text s => ((number? s).map compact).getD value
  | .numeric, other => compact other
  | _, other => other

def isNonZero : Scalar → Bool
  | .integer i => i != 0
  | .real x => !x.isZero
  | .infinite _ => true
  | _ => false

/-- Whether a value counts as true; a text does by the number it begins with. -/
def isTrue : Scalar → Bool
  | .text s => (leadingNumber s).isNonZero
  | value => value.isNonZero

/-- The whole part of a real, no further than 64 bits go. -/
def wholePart (x : Binary64) : Scalar := .integer (max minInteger (min x.truncate maxInteger))

def castInteger : Scalar → Scalar
  | .real x => wholePart x
  | .infinite negative => .integer (if negative then minInteger else maxInteger)
  | .text s => match leadingNumber (String.ofList ((s.toList.dropWhile isSpace).takeWhile fun c =>
      Text.isDigit c || c == '-' || c == '+')) with
    | .real x => wholePart x
    | other => other
  | other => other

/-- A text becomes the number it begins with; one that is not written as an integer becomes one only if it
is whole and has 51 bits. -/
def castNumeric : Scalar → Scalar
  | .text s => match leadingNumber s with
    | .real x =>
      if x.isIntegral && decide (-Int.pow 2 51 ≤ x.truncate) && decide (x.truncate < Int.pow 2 51) then .integer x.truncate
      else .real x
    | other => other
  | other => other

def castText (value : Scalar) : Scalar := (value.text?.map Scalar.text).getD value

/-- The order of sorts: null, numbers, texts, blobs. Infinite numbers come before and after all others. -/
def rank : Scalar → Nat
  | .null => 0
  | .infinite negative => if negative then 1 else 3
  | .integer _ | .real _ => 2
  | .text _ => 4
  | .blob _ => 5

/-- The order of values. -/
def compare : Scalar → Scalar → Ordering
  | .integer a, .integer b => Ord.compare a b
  | .integer a, .real y => Ord.compare (a * y.magnitude.2) y.numerator
  | .real x, .integer b => Ord.compare x.numerator (b * x.magnitude.2)
  | .real x, .real y => Binary64.compare x y
  | .text a, .text b => Ord.compare a b
  | .blob a, .blob b => Ord.compare a b
  | a, b => Ord.compare a.rank b.rank

end Scalar

end Dossier
