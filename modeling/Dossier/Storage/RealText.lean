import Dossier.Number.Decimal
import Dossier.Number.DoubleWord

/-!
Reals as decimal digits in the store. Both directions compute with double words, which is close to the
nearest number but does not always hit it.
-/

namespace Dossier.RealText

/-! ### Reading -/

/-- Digits are taken into a significand until it reaches this. -/
def significandLimit : Nat := ((1 <<< 64) - 10) / 10

/-- The significand of digits before and after a point, and the exponent that makes up for the digits left
out and for those after the point. -/
def significand (whole part : List Char) : Nat × Int :=
  let before := whole.foldl (fun (n, e) c =>
    if n < significandLimit then (n * 10 + Text.digitValue c, e) else (n, e + 1)) ((0 : Nat), (0 : Int))
  part.foldl (fun (n, e) c =>
    if n < significandLimit then (n * 10 + Text.digitValue c, e - 1) else (n, e)) before

/-- The exponent that digits spell; large ones are cut off. -/
def exponentSize (digits : List Char) : Nat :=
  digits.foldl (fun e c => if e < 10000 then e * 10 + Text.digitValue c else 10000) 0

/-- Moves powers of ten into a significand as long as it stays small. -/
def raise : Nat → Nat → Nat × Nat
  | n, 0 => (n, 0)
  | n, e + 1 => if n < ((1 <<< 64) - 2048) / 10 then raise (n * 10) e else (n, e + 1)

/-- Moves powers of ten out of a significand as long as zeros are at its end. -/
def lower : Nat → Nat → Nat × Nat
  | n, 0 => (n, 0)
  | n, e + 1 => if n % 10 = 0 then lower (n / 10) e else (n, e + 1)

/-- A significand as a double word. One that rounds to `2 ^ 64` has no second word. -/
def ofSignificand (n : Nat) : DoubleWord :=
  let x := DoubleWord.ofFraction n 1
  if x.high.magnitude.1 = 1 <<< 64 then ⟨x.high, Binary64.zero false⟩ else x

/-- The real `± n · 10 ^ exponent`; nothing when it is infinite. -/
def read (negative : Bool) (n : Nat) (exponent : Int) : Option Binary64 :=
  if n = 0 then some (Binary64.zero negative)
  else
    let (n, exponent) : Nat × Int :=
      if 0 ≤ exponent then
        let (n, e) := raise n exponent.toNat
        (n, e)
      else
        let (n, e) := lower n (-exponent).toNat
        (n, -e)
    (((ofSignificand n).scale? exponent).bind DoubleWord.sum?).map ({ · with negative })

/-! ### Writing -/

def bound (digits places : Nat) : Binary64 :=
  (Binary64.nearest false (digits * Nat.pow 10 places) 1).getD (Binary64.zero false)

def smallBound (digits places : Nat) : Binary64 :=
  (Binary64.nearest false digits (Nat.pow 10 places)).getD (Binary64.zero false)

def exceeds (limit x : Binary64) : Bool := x.compare limit == .gt

def below (limit x : Binary64) : Bool := x.compare limit == .lt

/-- A positive number as eighteen or nineteen digits before the point, and the places it was scaled by. -/
def wholeDigits (x : Binary64) : Nat × Int :=
  let start : DoubleWord := ⟨x, Binary64.zero false⟩
  let most := 9223372036854774784
  let (scaled, places) : DoubleWord × Int :=
    if exceeds (bound most 0) x then
      let (y, count) := DoubleWord.scaleWhile (exceeds (bound most 100)) (-100) 16 start 0
      let (y, count) := DoubleWord.scaleWhile (exceeds (bound most 10)) (-10) 16 y count
      DoubleWord.scaleWhile (exceeds (bound most 0)) (-1) 16 y count
    else
      let (y, count) := DoubleWord.scaleWhile (below (smallBound most 101)) 100 16 start 0
      let (y, count) := DoubleWord.scaleWhile (below (smallBound most 11)) 10 16 y count
      DoubleWord.scaleWhile (below (bound 922337203685477478 0)) 1 16 y count
  ((scaled.high.truncate + scaled.low.truncate).toNat, -places)

/-- A positive number as fifteen significant digits, a half going up. -/
def digits (x : Binary64) : Decimal :=
  if x.isZero then ⟨['0'], 0⟩
  else
    let (n, exponent) := wholeDigits { x with negative := false }
    let excess := (Decimal.digitsOf n).length - 15
    let unit := Nat.pow 10 excess
    let kept := n / unit
    let rounded := if unit ≤ 2 * (n % unit) then kept + 1 else kept
    Decimal.ofUnits rounded (excess + exponent)

/-- Reals show a point always; zero has no sign. -/
def layout : Decimal.Layout := ⟨-4, 14, true, 2⟩

def text (x : Binary64) : String :=
  String.ofList (Decimal.write layout (x.negative && !x.isZero) (digits x))

end Dossier.RealText
