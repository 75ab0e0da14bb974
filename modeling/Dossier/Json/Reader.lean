import Dossier.Json.Basic
import Dossier.Text.Ascii

/-!
Reading JSON text. The whole text is one value with blanks around it; containers nest at most 127 deep;
a repeated name keeps its last value; a number without point and exponent that fits 64 bits is an
integer, and every other number is a binary fraction.
-/

namespace Dossier

namespace Json.Reader

open Text (isDigit digitValue digitsValue hexValue)

def isBlank (c : Char) : Bool := c == ' ' || c == '\n' || c == '\t' || c == '\r'

def skipBlanks (cs : List Char) : List Char := cs.dropWhile isBlank

/-- Largest natural that the digits of a number may reach before the rest only shifts the exponent. -/
def maxSignificand : Nat := (1 <<< 64) - 1

/-- Takes decimal digits into a significand as long as it fits 64 bits. Returns it, how many digits were
taken, and what follows them. -/
def takeDigits : Nat → Nat → List Char → Nat × Nat × List Char
  | significand, taken, [] => (significand, taken, [])
  | significand, taken, c :: rest =>
    if isDigit c then
      let next := significand * 10 + digitValue c
      if maxSignificand < next then (significand, taken, c :: rest)
      else takeDigits next (taken + 1) rest
    else (significand, taken, c :: rest)

def power (n : Nat) : Binary64 := (Binary64.ofNat? (Nat.pow 10 n)).getD (Binary64.zero false)

/-- `x · 10 ^ exponent`, one rounded multiplication or division by a power up to `10 ^ 308` at a time;
nothing when it is out of range. The fuel bounds the number of divisions. -/
def scale : Nat → Binary64 → Int → Option Binary64
  | 0, _, _ => none
  | fuel + 1, x, exponent =>
    if exponent.natAbs ≤ 308 then
      if 0 ≤ exponent then x.mul? (power exponent.toNat) else x.div? (power (-exponent).toNat)
    else if x.isZero then some x
    else if 0 ≤ exponent then none
    else (x.div? (power 308)).bind fun y => scale fuel y (exponent + 308)

/-- The fraction `± significand · 10 ^ exponent`. Four divisions by `10 ^ 308` leave zero. -/
def fraction (negative : Bool) (significand : Nat) (exponent : Int) : Option Json := do
  let x ← Binary64.ofNat? significand
  let y ← scale 8 x exponent
  return .number (.real (if negative then y.neg else y))

/-- The exponent after `e`; `none` when no digit follows. The exponent is cut off at `2 ^ 31`. -/
def readExponent (cs : List Char) : Option (Int × List Char) :=
  let (negative, cs) : Bool × List Char := match cs with
    | '-' :: rest => (true, rest)
    | '+' :: rest => (false, rest)
    | _ => (false, cs)
  let digits := cs.takeWhile isDigit
  if digits.isEmpty then none
  else
    let size := min (digitsValue digits) (1 <<< 31)
    some (if negative then -(size : Int) else (size : Int), cs.dropWhile isDigit)

def finishNumber (negative : Bool) (significand : Nat) (exponent : Int) (cs : List Char) :
    Option (Json × List Char) :=
  match cs with
  | 'e' :: rest | 'E' :: rest => do
    let (more, rest) ← readExponent rest
    return (← fraction negative significand (exponent + more), rest)
  | _ => do return (← fraction negative significand exponent, cs)

/-- What follows the integral digits of a number whose first digits made `significand`. -/
def afterIntegral (negative : Bool) (significand : Nat) (cs : List Char) : Option (Json × List Char) :=
  let skipped := cs.takeWhile isDigit
  let cs := cs.dropWhile isDigit
  match cs with
  | '.' :: rest =>
    if (rest.head?.map isDigit).getD false then
      let (significand, taken, rest) := takeDigits significand 0 rest
      finishNumber negative significand ((skipped.length : Int) - taken) (rest.dropWhile isDigit)
    else none
  | 'e' :: _ | 'E' :: _ => finishNumber negative significand skipped.length cs
  | _ =>
    if !skipped.isEmpty then finishNumber negative significand skipped.length cs
    else if !negative then some (.number (.int significand), cs)
    else if significand == 0 || 1 <<< 63 < significand then finishNumber true significand 0 cs
    else some (.number (.int (-(significand : Int))), cs)

def readNumber (negative : Bool) : List Char → Option (Json × List Char)
  | '0' :: c :: rest =>
    if isDigit c then none else afterIntegral negative 0 (c :: rest)
  | c :: rest =>
    if isDigit c then
      let (significand, _, rest) := takeDigits 0 0 (c :: rest)
      afterIntegral negative significand rest
    else none
  | [] => none

def readHex : List Char → Option (Nat × List Char)
  | a :: b :: c :: d :: rest => do
    return ((((← hexValue a) * 16 + (← hexValue b)) * 16 + (← hexValue c)) * 16 + (← hexValue d), rest)
  | _ => none

/-- The character of a `\u` escape; two escapes that make a surrogate pair are one character, and a lone
surrogate is refused. -/
def readEscape (cs : List Char) : Option (Char × List Char) := do
  let (high, rest) ← readHex cs
  if 0xD800 ≤ high && high < 0xDC00 then
    match rest with
    | '\\' :: 'u' :: rest => do
      let (low, rest) ← readHex rest
      if 0xDC00 ≤ low && low < 0xE000 then
        return (Char.ofNat (0x10000 + (high - 0xD800) * 0x400 + (low - 0xDC00)), rest)
      else none
    | _ => none
  else if 0xDC00 ≤ high && high < 0xE000 then none
  else return (Char.ofNat high, rest)

/-- The characters of a string up to its closing quote, after those already read, which come reversed. -/
def readString : Nat → List Char → List Char → Option (String × List Char)
  | 0, _, _ => none
  | fuel + 1, read, cs => match cs with
    | '"' :: rest => some (String.ofList read.reverse, rest)
    | '\\' :: c :: rest => match c with
      | '"' => readString fuel ('"' :: read) rest
      | '\\' => readString fuel ('\\' :: read) rest
      | '/' => readString fuel ('/' :: read) rest
      | 'b' => readString fuel ('\x08' :: read) rest
      | 'f' => readString fuel ('\x0c' :: read) rest
      | 'n' => readString fuel ('\n' :: read) rest
      | 'r' => readString fuel ('\r' :: read) rest
      | 't' => readString fuel ('\t' :: read) rest
      | 'u' => (readEscape rest).bind fun (c, rest) => readString fuel (c :: read) rest
      | _ => none
    | c :: rest => if c.toNat < 0x20 || c == '\\' then none else readString fuel (c :: read) rest
    | [] => none

def expect (word : String) (value : Json) (cs : List Char) : Option (Json × List Char) :=
  let letters := word.toList
  if letters.isPrefixOf cs then some (value, cs.drop letters.length) else none

mutual

/-- One value, `depth` containers deep at most. Every call spends fuel, and the length of the text is
enough. -/
def readValue : Nat → Nat → List Char → Option (Json × List Char)
  | 0, _, _ => none
  | fuel + 1, depth, cs => match skipBlanks cs with
    | 'n' :: rest => expect "ull" .null rest
    | 't' :: rest => expect "rue" (.bool true) rest
    | 'f' :: rest => expect "alse" (.bool false) rest
    | '"' :: rest => (readString fuel [] rest).map fun (s, rest) => (.string s, rest)
    | '-' :: rest => readNumber true rest
    | '[' :: rest =>
      if depth == 0 then none
      else match skipBlanks rest with
        | ']' :: rest => some (.array [], rest)
        | rest => readItems fuel (depth - 1) [] rest
    | '{' :: rest =>
      if depth == 0 then none
      else match skipBlanks rest with
        | '}' :: rest => some (.object [], rest)
        | rest => readMembers fuel (depth - 1) [] rest
    | rest => readNumber false rest

/-- The items of an array up to its bracket, after those already read, which come reversed. -/
def readItems : Nat → Nat → List Json → List Char → Option (Json × List Char)
  | 0, _, _, _ => none
  | fuel + 1, depth, read, cs => do
    let (item, rest) ← readValue fuel depth cs
    match skipBlanks rest with
    | ',' :: rest => readItems fuel depth (item :: read) rest
    | ']' :: rest => return (.array (item :: read).reverse, rest)
    | _ => none

/-- The members of an object up to its brace, after those already read. -/
def readMembers : Nat → Nat → Members → List Char → Option (Json × List Char)
  | 0, _, _, _ => none
  | fuel + 1, depth, read, cs => match skipBlanks cs with
    | '"' :: rest => do
      let (name, rest) ← readString fuel [] rest
      match skipBlanks rest with
      | ':' :: rest => do
        let (value, rest) ← readValue fuel depth rest
        let read := Members.insert name value read
        match skipBlanks rest with
        | ',' :: rest => readMembers fuel depth read rest
        | '}' :: rest => return (.object read, rest)
        | _ => none
      | _ => none
    | _ => none

end

/-- Containers may nest this deep. -/
def maxDepth : Nat := 127

end Json.Reader

/-- The value that a whole text denotes, if it is JSON. -/
def Json.ofText? (text : String) : Option Json :=
  let cs := text.toList
  match Reader.readValue (2 * cs.length + 2) Reader.maxDepth cs with
  | some (value, rest) => if (Reader.skipBlanks rest).isEmpty then some value else none
  | none => none

end Dossier
