import Dossier.Number.Binary64
import Dossier.Text.Ascii

/-!
Decimal digits of binary64 numbers: the number nearest to digits (`nearest`), the fewest digits that read
back as the same number (`shortest`), and the ways in which digits and a decimal exponent are laid out as
text.
-/

namespace Dossier

/-- The number `0.d₁d₂… · 10 ^ (exponent + 1)`, that is `d₁.d₂… · 10 ^ exponent`. -/
structure Decimal where
  digits : List Char
  exponent : Int
  deriving DecidableEq, Repr, Inhabited

namespace Decimal

def digitsOf (n : Nat) : List Char := Nat.toDigits 10 n

/-- The number nearest to `± digits · 10 ^ exponent`; nothing when it is out of range. Beyond four hundred
places every number is out of range or zero. -/
def nearest (negative : Bool) (digits : List Char) (exponent : Int) : Option Binary64 :=
  let n := Text.digitsValue digits
  let clipped := max (-(400 + (digits.length : Int))) (min exponent 400)
  if 0 ≤ clipped then Binary64.nearest negative (n * Nat.pow 10 clipped.toNat) 1
  else Binary64.nearest negative n (Nat.pow 10 (-clipped).toNat)

/-- The number of places by which a positive fraction above `10 ^ -400` is scaled before counting. -/
def scalePlaces : Nat := 400

/-- The `e` with `10 ^ e ≤ num / den < 10 ^ (e + 1)`. -/
def leadingExponent (num den : Nat) : Int :=
  ((digitsOf (num * Nat.pow 10 scalePlaces / den)).length : Int) - 1 - scalePlaces

/-- `num / den` in units of `10 ^ unit`, as a fraction. -/
def inUnits (num den : Nat) (unit : Int) : Nat × Nat :=
  if 0 ≤ unit then (num, den * Nat.pow 10 unit.toNat) else (num * Nat.pow 10 (-unit).toNat, den)

def dropTrailingZeros (cs : List Char) : List Char :=
  (cs.reverse.dropWhile (· == '0')).reverse

/-- The decimal `n · 10 ^ unit` without trailing zeros. -/
def ofUnits (n : Nat) (unit : Int) : Decimal :=
  let cs := digitsOf n
  ⟨dropTrailingZeros cs, (cs.length : Int) - 1 + unit⟩

/-- The reals that round to a number, in fractions over one denominator; `closed` tells whether the ends
belong. -/
structure Interval where
  low : Nat
  value : Nat
  high : Nat
  den : Nat
  closed : Bool

/-- The interval of reals that round to `x`. Below a power of two the gap is half as wide. -/
def interval (x : Binary64) : Interval :=
  let (num, den) := x.magnitude
  let gap := if 0 ≤ x.exponent then Nat.pow 2 x.exponent.toNat else 1
  let below := if x.mantissa == 1 <<< 52 && Binary64.minExponent < x.exponent then gap else 2 * gap
  ⟨4 * num - below, 4 * num, 4 * num + 2 * gap, 4 * den, x.mantissa % 2 == 0⟩

/-- Whether `n · 10 ^ unit` lies in the interval. -/
def Interval.holds (i : Interval) (unit : Int) (n : Nat) : Bool :=
  let (low, den) := inUnits i.low i.den unit
  let (high, _) := inUnits i.high i.den unit
  if i.closed then decide (low ≤ n * den) && decide (n * den ≤ high)
  else decide (low < n * den) && decide (n * den < high)

/-- Of the two neighbours of the value on the grid of `10 ^ unit`, the nearer one in the interval; of two
equally near ones the even one. -/
def onGrid (i : Interval) (unit : Int) : Option Nat :=
  let (num, den) := inUnits i.value i.den unit
  let below := num / den
  let twice := 2 * (num % den)
  let belowFirst := decide (twice < den) || (twice == den && below % 2 == 0)
  match i.holds unit below && below != 0, i.holds unit (below + 1) with
  | true, true => some (if belowFirst then below else below + 1)
  | true, false => some below
  | false, true => some (below + 1)
  | false, false => none

/-- The fewest digits that round back to the magnitude of `x`; among those the nearest. -/
def shortest (x : Binary64) : Decimal :=
  if x.isZero then ⟨['0'], 0⟩
  else
    let i := interval x
    let exponent := leadingExponent i.value i.den
    let attempt (count : Nat) : Option Decimal :=
      let unit := exponent - ((count : Int) - 1)
      (onGrid i unit).map (ofUnits · unit)
    ((List.range' 1 17).findSome? attempt).getD (ofUnits i.value 0)

def zeros (n : Nat) : List Char := List.replicate n '0'

/-- Positional text of the digits; `point` says whether a whole number still shows `.0`. -/
def positional (point : Bool) (d : Decimal) : List Char :=
  if d.exponent < 0 then
    ['0', '.'] ++ zeros ((-d.exponent).toNat - 1) ++ d.digits
  else
    let places := d.exponent.toNat + 1
    if d.digits.length ≤ places then
      d.digits ++ zeros (places - d.digits.length) ++ (if point then ['.', '0'] else [])
    else d.digits.take places ++ ['.'] ++ d.digits.drop places

/-- The mantissa part of exponent text: `d` or `d.ddd`; `point` turns `d` into `d.0`. -/
def leadingDigits (point : Bool) (d : Decimal) : List Char :=
  match d.digits with
  | [] => ['0']
  | first :: [] => if point then [first, '.', '0'] else [first]
  | first :: rest => first :: '.' :: rest

/-- The exponent part: `e`, a sign, and at least `width` digits. -/
def exponentPart (width : Nat) (e : Int) : List Char :=
  let cs := digitsOf e.natAbs
  'e' :: (if e < 0 then '-' else '+') :: (zeros (width - cs.length) ++ cs)

/-- How numbers are laid out: the exponents written positionally, whether a whole mantissa shows `.0` in
exponent text, and the least number of exponent digits. -/
structure Layout where
  low : Int
  high : Int
  pointInExponent : Bool
  exponentWidth : Nat

def write (layout : Layout) (negative : Bool) (d : Decimal) : List Char :=
  let body :=
    if layout.low ≤ d.exponent && d.exponent ≤ layout.high then positional true d
    else leadingDigits layout.pointInExponent d ++ exponentPart layout.exponentWidth d.exponent
  if negative then '-' :: body else body

end Decimal

end Dossier
