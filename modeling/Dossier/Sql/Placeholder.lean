import Dossier.Sql.Quote
import Dossier.Text.Digit

/-!
Placeholders in SQL text: a dollar sign and the decimal digits that follow it, as many as there are. A text
is scanned into tokens; renumbering and rendering put new characters in place of each placeholder, from
left to right, and keep everything else.
-/

namespace Dossier.Sql

inductive Token where
  | char (c : Char)
  | placeholder (digits : List Char)
  deriving DecidableEq, Repr, Inhabited

/-- The digits at the start of scanned text, and the tokens after them. -/
def leadingDigits : List Token → List Char × List Token
  | .char c :: rest =>
    if Text.isDecimalDigit c then ((c :: (leadingDigits rest).1), (leadingDigits rest).2)
    else ([], .char c :: rest)
  | tokens => ([], tokens)

/-- Puts a character before scanned text; a dollar sign takes the digits that follow. -/
def attach (c : Char) (tokens : List Token) : List Token :=
  if c = '$' then
    match leadingDigits tokens with
    | ([], _) => .char c :: tokens
    | (digits, rest) => .placeholder digits :: rest
  else .char c :: tokens

def scan : List Char → List Token
  | [] => []
  | c :: rest => attach c (scan rest)

/-- Writes tokens with the characters `put k` for the placeholder number `k`, counted from `next`. -/
def fill (put : Nat → List Char) : Nat → List Token → List Char
  | _, [] => []
  | next, .char c :: rest => c :: fill put next rest
  | next, .placeholder _ :: rest => put next ++ fill put (next + 1) rest

def isPlaceholder : Token → Bool
  | .placeholder _ => true
  | .char _ => false

def countPlaceholders (tokens : List Token) : Nat := tokens.countP isPlaceholder

/-- `$1`, `$2`, … for the numbers `0`, `1`, …. -/
def numbered (k : Nat) : List Char := '$' :: Nat.toDigits 10 (k + 1)

/-- The text with its placeholders numbered from 1 in textual order, and how many there are. -/
def renumber (sql : String) : String × Nat :=
  let tokens := scan sql.toList
  (String.ofList (fill numbered 0 tokens), countPlaceholders tokens)

def literalAt (params : List Json) (k : Nat) : List Char :=
  match params[k]? with
  | some value => (literal value).toList
  | none => ['?']

/-- The text with the literal of each parameter in place of its placeholder, in textual order. For logs,
never for execution. -/
def render (sql : String) (params : List Json) : String :=
  String.ofList (fill (literalAt params) 0 (scan sql.toList))

/-- A question mark in place of the dollar sign of a placeholder. -/
def Token.questioned : Token → List Char
  | .char c => [c]
  | .placeholder digits => '?' :: digits

/-- The text with question marks in place of the dollar signs of its placeholders, in names too. -/
def questioned (sql : String) : String := String.ofList ((scan sql.toList).flatMap Token.questioned)

end Dossier.Sql
