import Dossier.Json.Basic
import Dossier.Number.Decimal

/-!
The canonical text of a JSON value: no blanks, members in the order of their names, the shortest digits
for fractions, and escapes for quotes, backslashes and control characters only.
-/

namespace Dossier

namespace Number

/-- Fractions are positional from `10 ^ -5` to below `10 ^ 16` and always show a point there. -/
def layout : Decimal.Layout := ⟨-5, 15, false, 1⟩

def text : Number → String
  | .int i => toString i
  | .real x => String.ofList (Decimal.write layout x.negative (Decimal.shortest x))

end Number

namespace Json

def hexDigit (n : Nat) : Char := Nat.digitChar (n % 16)

def escape (c : Char) : List Char :=
  if c = '"' then ['\\', '"']
  else if c = '\\' then ['\\', '\\']
  else if c = '\x08' then ['\\', 'b']
  else if c = '\x0c' then ['\\', 'f']
  else if c = '\n' then ['\\', 'n']
  else if c = '\r' then ['\\', 'r']
  else if c = '\t' then ['\\', 't']
  else if c.toNat < 0x20 then ['\\', 'u', '0', '0', hexDigit (c.toNat / 16), hexDigit c.toNat]
  else [c]

def quoted (s : String) : String := String.ofList ('"' :: s.toList.flatMap escape ++ ['"'])

mutual

def text : Json → String
  | .null => "null"
  | .bool true => "true"
  | .bool false => "false"
  | .number n => n.text
  | .string s => quoted s
  | .array items => "[" ++ String.intercalate "," (textItems items) ++ "]"
  | .object members => "\x7b" ++ String.intercalate "," (textMembers members) ++ "\x7d"

def textItems : List Json → List String
  | [] => []
  | item :: rest => text item :: textItems rest

def textMembers : List (String × Json) → List String
  | [] => []
  | (name, value) :: rest => (quoted name ++ ":" ++ text value) :: textMembers rest

end

end Json

end Dossier
