/-!
Estimates of counts and costs: ten times their binary logarithms, to about a tenth. A product of counts is
then a sum of estimates, and a sum of counts lies a little above the larger of its estimates.
-/

namespace Dossier.Estimate

/-- What the three binary digits after the first one add. -/
def fraction : Nat → Int
  | 0 => 0
  | 1 => 2
  | 2 => 3
  | 3 => 5
  | 4 => 6
  | 5 => 7
  | 6 => 8
  | _ => 9

/-- The estimate of a count; counts below two are not told apart. -/
def ofCount (n : Nat) : Int :=
  if n < 2 then 0
  else
    let size := Nat.log2 n
    10 * (size : Int) + fraction ((n * 8 / Nat.pow 2 size) % 8)

/-- How far the estimate of a sum lies above the larger estimate, by the distance of the two. -/
def surplus (distance : Int) : Int :=
  if distance ≤ 1 then 10
  else if distance ≤ 3 then 9
  else if distance ≤ 5 then 8
  else if distance ≤ 8 then 7
  else if distance ≤ 11 then 6
  else if distance ≤ 14 then 5
  else if distance ≤ 18 then 4
  else if distance ≤ 24 then 3
  else if distance ≤ 31 then 2
  else if distance ≤ 49 then 1
  else 0

/-- The estimate of a sum. -/
def sum (a b : Int) : Int := if b ≤ a then a + surplus (a - b) else b + surplus (b - a)

/-- The estimate of the logarithm of a count that is given by its estimate. -/
def logarithm (a : Int) : Int := if a ≤ 10 then 0 else ofCount a.toNat - 33

end Dossier.Estimate
