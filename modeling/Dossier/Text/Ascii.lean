/-!
ASCII letters and digits: their case, in conversions that touch no other character and in comparison that
ignores it, the classes of characters that names are made of, and the numbers that digits spell.
-/

namespace Dossier.Text

def asciiLower (s : String) : String := String.ofList (s.toList.map Char.toLower)

def asciiUpper (s : String) : String := String.ofList (s.toList.map Char.toUpper)

/-- Equality up to the case of ASCII letters. -/
def equalIgnoringCase (a b : String) : Bool := a.toList.map Char.toLower == b.toList.map Char.toLower

def isLetter (c : Char) : Bool := ('a' ≤ c && c ≤ 'z') || ('A' ≤ c && c ≤ 'Z')

def isDigit (c : Char) : Bool := '0' ≤ c && c ≤ '9'

def digitValue (c : Char) : Nat := c.toNat - '0'.toNat

/-- The number that decimal digits spell. -/
def digitsValue (cs : List Char) : Nat := cs.foldl (fun n c => n * 10 + digitValue c) 0

/-- The decimal digits of a number, after as many zeros as it takes to fill `width` places. -/
def padded (width n : Nat) : String :=
  let digits := Nat.toDigits 10 n
  String.ofList (List.replicate (width - digits.length) '0' ++ digits)

/-- The value of a hexadecimal digit in either case. -/
def hexValue (c : Char) : Option Nat :=
  if isDigit c then some (digitValue c)
  else if 'a' ≤ c && c ≤ 'f' then some (c.toNat - 'a'.toNat + 10)
  else if 'A' ≤ c && c ≤ 'F' then some (c.toNat - 'A'.toNat + 10)
  else none

def isHexDigit (c : Char) : Bool := (hexValue c).isSome

/-- A letter, a digit, an underscore or a hyphen. -/
def isSegmentChar (c : Char) : Bool := isLetter c || isDigit c || c == '_' || c == '-'

/-- A letter or underscore, then letters, digits and underscores. -/
def isName (s : String) : Bool :=
  match s.toList with
  | [] => false
  | c :: rest => (isLetter c || c == '_') && rest.all fun c => isLetter c || isDigit c || c == '_'

end Dossier.Text
