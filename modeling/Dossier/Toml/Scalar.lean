import Dossier.Number.Decimal
import Dossier.Settings.Value
import Dossier.Text.Pieces
import Dossier.Toml.Moment

/-!
Flags, numbers and moments as TOML writes them, without quotes. A moment is a text in its one spelling.
-/

namespace Dossier.Toml

open Settings (Value)
open Text (isDigit digitsValue hexValue)

/-- Digits with single underscores between them. -/
def grouped (isDigit : Char → Bool) (cs : List Char) : Option (List Char) :=
  if (Text.splitAt '_' cs).all fun group => !group.isEmpty && group.all isDigit then some (cs.filter (· != '_'))
  else none

/-- Digits of a number that does not begin with a zero, unless zero is all there is. -/
def groupedWhole (cs : List Char) : Option (List Char) := do
  let digits ← grouped isDigit cs
  if 1 < digits.length && digits.head? == some '0' then none else return digits

def whole? (negative : Bool) (n : Nat) : Option Value :=
  let i : Int := if negative then -(n : Int) else n
  if -Int.pow 2 63 ≤ i && i < Int.pow 2 63 then some (.whole i) else none

/-- A whole number in a base up to sixteen. -/
def inBase (base : Nat) (cs : List Char) : Option Value := do
  let digits ← grouped (fun c => ((hexValue c).map (decide <| · < base)).getD false) cs
  whole? false (digits.foldl (fun n c => n * base + (hexValue c).getD 0) 0)

def isExponentMark (c : Char) : Bool := c == 'e' || c == 'E'

/-- The exponent at the end of a fraction, with its mark; zero if there is none. -/
def exponent? : List Char → Option Int
  | [] => some 0
  | _ :: '-' :: digits => (grouped isDigit digits).map fun digits => -(digitsValue digits : Int)
  | _ :: '+' :: digits | _ :: digits => (grouped isDigit digits).map fun digits => (digitsValue digits : Int)

def fraction? (negative : Bool) (cs : List Char) : Option Value := do
  let mantissa := cs.takeWhile (!isExponentMark ·)
  let exponent ← exponent? (cs.dropWhile (!isExponentMark ·))
  let (whole, part) ← match Text.cutAt '.' mantissa with
    | some (whole, part) => (grouped isDigit part).map (whole, ·)
    | none => some (mantissa, [])
  let whole ← groupedWhole whole
  (Decimal.nearest negative (whole ++ part) (exponent - part.length)).map .fraction

/-- A number without its sign; a moment has none, so `raw` holds the sign as well. -/
def number? (negative : Bool) (raw cs : List Char) : Option Value :=
  match cs with
  | ['i', 'n', 'f'] => some (.infinite negative)
  | ['n', 'a', 'n'] => some .notNumber
  | _ =>
    if ((cs.dropWhile isDigit).head?.map fun c => c == '-' || c == ':').getD false then
      (Moment.ofChars? raw).map fun moment => .text moment.text
    else if cs.any fun c => c == '.' || isExponentMark c then fraction? negative cs
    else (groupedWhole cs).bind fun digits => whole? negative (digitsValue digits)

/-- The value that a text without quotes denotes. -/
def scalar? (raw : List Char) : Option Value :=
  match raw with
  | ['t', 'r', 'u', 'e'] => some (.flag true)
  | ['f', 'a', 'l', 's', 'e'] => some (.flag false)
  | '0' :: 'x' :: digits => inBase 16 digits
  | '0' :: 'o' :: digits => inBase 8 digits
  | '0' :: 'b' :: digits => inBase 2 digits
  | '+' :: cs => number? false raw cs
  | '-' :: cs => number? true raw cs
  | _ => number? false raw raw

end Dossier.Toml
