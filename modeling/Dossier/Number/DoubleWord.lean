import Dossier.Number.Binary64

/-!
Sums of two binary64 numbers, kept apart so that together they hold more digits than one. A product is
computed in binary64 throughout, from the upper and lower halves of the mantissas, and is nothing when a
step is out of range.
-/

namespace Dossier

structure DoubleWord where
  high : Binary64
  low : Binary64
  deriving DecidableEq, Repr, Inhabited

namespace DoubleWord

/-- The number without the lower 26 bits of its mantissa. -/
def upper (x : Binary64) : Binary64 := { x with mantissa := x.mantissa - x.mantissa % (1 <<< 26) }

/-- The number nearest to `num / den`, which is in range, and the number nearest to what is left. -/
def ofFraction (num den : Nat) : DoubleWord :=
  let high := (Binary64.nearest false num den).getD (Binary64.zero false)
  let rest : Int := num * high.magnitude.2 - high.magnitude.1 * den
  let low := Binary64.nearest (decide (rest < 0)) rest.natAbs (den * high.magnitude.2)
  ⟨high, low.getD (Binary64.zero false)⟩

def times? (x y : DoubleWord) : Option DoubleWord := do
  let xu := upper x.high
  let xl ← x.high.sub? xu
  let yu := upper y.high
  let yl ← y.high.sub? yu
  let product ← xu.mul? yu
  let mixed ← (← xu.mul? yl).add? (← xl.mul? yu)
  let sum ← product.add? mixed
  let rest ← (← (← product.sub? sum).add? mixed).add? (← xl.mul? yl)
  let rest ← (← (← x.high.mul? y.low).add? (← x.low.mul? y.high)).add? rest
  let high ← sum.add? rest
  return ⟨high, ← (← sum.sub? high).add? rest⟩

def sum? (x : DoubleWord) : Option Binary64 := x.high.add? x.low

def power (exponent : Int) : DoubleWord :=
  if 0 ≤ exponent then ofFraction (Nat.pow 10 exponent.toNat) 1 else ofFraction 1 (Nat.pow 10 (-exponent).toNat)

/-- Multiplies by powers of ten, each of them a hundred, ten or one places. -/
def scale? (x : DoubleWord) (exponent : Int) : Option DoubleWord :=
  let places := exponent.natAbs
  let sign : Int := if exponent < 0 then -1 else 1
  let steps := List.replicate (places / 100) (power (sign * 100)) ++
    List.replicate (places % 100 / 10) (power (sign * 10)) ++ List.replicate (places % 10) (power sign)
  steps.foldlM times? x

/-- Multiplies by a power of ten while the upper word is outside of some bounds, and counts the places. -/
def scaleWhile (outside : Binary64 → Bool) (places : Int) : Nat → DoubleWord → Int → DoubleWord × Int
  | 0, x, count => (x, count)
  | fuel + 1, x, count =>
    if outside x.high then
      match x.times? (power places) with
      | some y => scaleWhile outside places fuel y (count + places)
      | none => (x, count)
    else (x, count)

end DoubleWord

end Dossier
