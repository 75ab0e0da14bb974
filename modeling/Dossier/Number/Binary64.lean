/-!
Finite binary64 numbers as exact dyadic fractions. A number is a sign, a mantissa and a power of two;
`nearest` rounds any fraction to the nearest such number, a half going to the even mantissa, and every
operation below is `nearest` of the exact result.
-/

namespace Dossier

/-- The number `± mantissa · 2 ^ exponent`, with `mantissa < 2 ^ 53` and `-1074 ≤ exponent ≤ 971`. -/
structure Binary64 where
  negative : Bool
  mantissa : Nat
  exponent : Int
  deriving DecidableEq, Repr, Inhabited

namespace Binary64

def minExponent : Int := -1074

def maxExponent : Int := 971

def zero (negative : Bool) : Binary64 := ⟨negative, 0, minExponent⟩

def isZero (x : Binary64) : Bool := x.mantissa == 0

/-- The magnitude as a fraction of two naturals. -/
def magnitude (x : Binary64) : Nat × Nat :=
  if 0 ≤ x.exponent then (x.mantissa * Nat.pow 2 x.exponent.toNat, 1)
  else (x.mantissa, Nat.pow 2 (-x.exponent).toNat)

/-- `num / den` to the nearest natural, a half going to the even one. -/
def roundHalfEven (num den : Nat) : Nat :=
  let quotient := num / den
  let twice := 2 * (num % den)
  if twice < den then quotient
  else if den < twice then quotient + 1
  else if quotient % 2 == 0 then quotient else quotient + 1

/-- `num / den` divided by `2 ^ exponent`, again as a fraction. -/
def scaled (num den : Nat) (exponent : Int) : Nat × Nat :=
  if 0 ≤ exponent then (num, den * Nat.pow 2 exponent.toNat) else (num * Nat.pow 2 (-exponent).toNat, den)

/-- The exponent at which `num / den` has a 53-bit integral part, or the least one. -/
def exponentOf (num den : Nat) : Int :=
  let guess : Int := (num.log2 : Int) - (den.log2 : Int) - 52
  let (n, d) := scaled num den guess
  let exact := if n / d < 1 <<< 52 then guess - 1 else guess
  max exact minExponent

/-- The binary64 number nearest to `± num / den`, or nothing when it is out of range. -/
def nearest (negative : Bool) (num den : Nat) : Option Binary64 :=
  if num == 0 || den == 0 then some (zero negative)
  else
    let exponent := exponentOf num den
    let (n, d) := scaled num den exponent
    let mantissa := roundHalfEven n d
    let (mantissa, exponent) :=
      if mantissa == 1 <<< 53 then (1 <<< 52, exponent + 1) else (mantissa, exponent)
    if maxExponent < exponent then none
    else if mantissa == 0 then some (zero negative)
    else some ⟨negative, mantissa, exponent⟩

def ofNat? (n : Nat) : Option Binary64 := nearest false n 1

def ofInt? (i : Int) : Option Binary64 := nearest (decide (i < 0)) i.natAbs 1

def neg (x : Binary64) : Binary64 := { x with negative := !x.negative }

def mul? (x y : Binary64) : Option Binary64 :=
  nearest (x.negative != y.negative) (x.magnitude.1 * y.magnitude.1) (x.magnitude.2 * y.magnitude.2)

/-- The quotient; nothing when the divisor is zero. -/
def div? (x y : Binary64) : Option Binary64 :=
  if y.isZero then none
  else nearest (x.negative != y.negative) (x.magnitude.1 * y.magnitude.2) (x.magnitude.2 * y.magnitude.1)

/-- The exact signed numerator over the denominator of `magnitude`. -/
def numerator (x : Binary64) : Int :=
  if x.negative then -(x.magnitude.1 : Int) else (x.magnitude.1 : Int)

/-- The sum; nothing when it is out of range. -/
def add? (x y : Binary64) : Option Binary64 :=
  let sum := x.numerator * y.magnitude.2 + y.numerator * x.magnitude.2
  nearest (decide (sum < 0)) sum.natAbs (x.magnitude.2 * y.magnitude.2)

def sub? (x y : Binary64) : Option Binary64 := x.add? y.neg

def compare (x y : Binary64) : Ordering :=
  Ord.compare (x.numerator * y.magnitude.2) (y.numerator * x.magnitude.2)

/-- Equality as numbers: the two zeros are one number. -/
def same (x y : Binary64) : Bool := (x.isZero && y.isZero) || x == y

/-- The integral part, toward zero. -/
def truncate (x : Binary64) : Int :=
  let whole := x.magnitude.1 / x.magnitude.2
  if x.negative then -(whole : Int) else (whole : Int)

def isIntegral (x : Binary64) : Bool := x.magnitude.1 % x.magnitude.2 == 0

/-- The nearest integer, a half going away from zero. -/
def round (x : Binary64) : Int :=
  let whole := (2 * x.magnitude.1 + x.magnitude.2) / (2 * x.magnitude.2)
  if x.negative then -(whole : Int) else (whole : Int)

end Binary64

end Dossier
