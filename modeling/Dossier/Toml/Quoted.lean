import Dossier.Text.Ascii

/-!
Blanks, comments and quoted strings in TOML texts. A line ends in a line feed, which a carriage return may
precede; carriage returns stand nowhere else.
-/

namespace Dossier.Toml

open Text (hexValue)

def isSpace (c : Char) : Bool := c == ' ' || c == '\t'

def skipSpaces (cs : List Char) : List Char := cs.dropWhile isSpace

/-- A character that comments and strings do not hold as it is. -/
def isControl (c : Char) : Bool := (c.toNat < 0x20 && c != '\t') || c.toNat == 0x7f

/-- Skips blanks, line ends and comments. -/
def skipLines (inComment : Bool) : List Char → Option (List Char)
  | [] => some []
  | '\r' :: '\n' :: rest => skipLines false rest
  | c :: rest =>
    if c == '\n' then skipLines false rest
    else if inComment then (if isControl c then none else skipLines true rest)
    else if c == '#' then skipLines true rest
    else if isSpace c then skipLines false rest
    else some (c :: rest)

/-- What is left after the end of a line, which may hold a comment. -/
def endLine (inComment : Bool) : List Char → Option (List Char)
  | [] => some []
  | '\r' :: '\n' :: rest => some rest
  | c :: rest =>
    if c == '\n' then some rest
    else if inComment then (if isControl c then none else endLine true rest)
    else if c == '#' then endLine true rest
    else if isSpace c then endLine false rest
    else none

def readHex (count : Nat) (cs : List Char) : Option (Char × List Char) := do
  let digits := cs.take count
  let values ← digits.mapM hexValue
  let code := values.foldl (fun n d => n * 16 + d) 0
  if digits.length = count && code.isValidChar then some (Char.ofNat code, cs.drop count) else none

/-- The character of an escape, after its backslash. -/
def readEscape (cs : List Char) : Option (Char × List Char) :=
  match cs with
  | '"' :: rest => some ('"', rest)
  | '\\' :: rest => some ('\\', rest)
  | 'b' :: rest => some ('\x08', rest)
  | 'e' :: rest => some ('\x1b', rest)
  | 't' :: rest => some ('\t', rest)
  | 'n' :: rest => some ('\n', rest)
  | 'f' :: rest => some ('\x0c', rest)
  | 'r' :: rest => some ('\r', rest)
  | 'x' :: rest => readHex 2 rest
  | 'u' :: rest => readHex 4 rest
  | 'U' :: rest => readHex 8 rest
  | _ => none

/-- The rest of a basic string, after what was read of it, which comes reversed. -/
def readBasic : Nat → List Char → List Char → Option (String × List Char)
  | 0, _, _ => none
  | fuel + 1, read, cs =>
    match cs with
    | '"' :: rest => some (String.ofList read.reverse, rest)
    | '\\' :: rest => (readEscape rest).bind fun (c, rest) => readBasic fuel (c :: read) rest
    | c :: rest => if isControl c then none else readBasic fuel (c :: read) rest
    | [] => none

/-- The rest of a literal string. -/
def readLiteral (cs : List Char) : Option (String × List Char) :=
  let text := cs.takeWhile (· != '\'')
  match cs.dropWhile (· != '\'') with
  | '\'' :: rest => if text.any isControl then none else some (String.ofList text, rest)
  | _ => none

/-- A line end right after the opening quotes is no part of a string over several lines. -/
def skipFirstLineEnd (cs : List Char) : List Char :=
  match cs with
  | '\n' :: rest | '\r' :: '\n' :: rest => rest
  | _ => cs

/-- Whether the rest of the line is blank. -/
def endsLine (cs : List Char) : Bool :=
  match skipSpaces cs with
  | '\n' :: _ | '\r' :: '\n' :: _ => true
  | _ => false

def skipBlankLines : List Char → List Char
  | '\r' :: '\n' :: rest => skipBlankLines rest
  | c :: rest => if isSpace c || c == '\n' then skipBlankLines rest else c :: rest
  | [] => []

/-- The rest of a string over several lines. In a basic one, a backslash at the end of a line joins it to
the next text. One or two quotes before the closing three belong to the string. -/
def readLong (quote : Char) : Nat → List Char → List Char → Option (String × List Char)
  | 0, _, _ => none
  | fuel + 1, read, cs =>
    if cs.take 3 == [quote, quote, quote] && (cs.drop 3).head? != some quote then
      some (String.ofList read.reverse, cs.drop 3)
    else
      match cs with
      | '\r' :: '\n' :: rest => readLong quote fuel ('\n' :: '\r' :: read) rest
      | '\n' :: rest => readLong quote fuel ('\n' :: read) rest
      | c :: rest =>
        if c == '\\' && quote == '"' then
          if endsLine rest then readLong quote fuel read (skipBlankLines rest)
          else (readEscape rest).bind fun (c, rest) => readLong quote fuel (c :: read) rest
        else if isControl c then none
        else if (c :: rest).take 6 == List.replicate 6 quote then none
        else readLong quote fuel (c :: read) rest
      | [] => none

/-- A string with its quotes, if one comes next. -/
def readString? (cs : List Char) : Option (Option (String × List Char)) :=
  match cs with
  | '"' :: '"' :: '"' :: rest => some (readLong '"' (rest.length + 1) [] (skipFirstLineEnd rest))
  | '\'' :: '\'' :: '\'' :: rest => some (readLong '\'' (rest.length + 1) [] (skipFirstLineEnd rest))
  | '"' :: rest => some (readBasic (rest.length + 1) [] rest)
  | '\'' :: rest => some (readLiteral rest)
  | _ => none

end Dossier.Toml
