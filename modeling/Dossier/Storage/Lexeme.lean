import Dossier.Sql.Placeholder
import Dossier.Storage.Numeric

/-!
Words, names, numbers, parameters and marks in the text of commands. Blanks and comments stand between them.
-/

namespace Dossier

inductive Lexeme where
  /-- A bare word, in lower case and as it is spelled. -/
  | word (text spelled : String)
  | name (text : String)
  | text (text : String)
  | number (value : Scalar)
  | parameter (number : Nat)
  | mark (text : String)
  deriving DecidableEq, Repr, Inhabited

namespace Lexeme

/-- A lexeme in its place, with the text from its start on. -/
structure Found where
  lexeme : Lexeme
  text : List Char
  deriving Repr, Inhabited

/-! ### Blanks -/

/-- What follows the end of a comment, which the end of the text ends too. -/
def afterComment : List Char → List Char
  | [] => []
  | '*' :: '/' :: rest => rest
  | _ :: rest => afterComment rest

/-- Whether a character can begin a blank. A vertical tab cannot, but it can follow. -/
def startsBlank (c : Char) : Bool := Scalar.isSpace c && c != '\x0b'

/-- What follows the blank or comment at the start of a text, if there is one. -/
def afterBlank? : List Char → Option (List Char)
  | '-' :: '-' :: rest => some (rest.dropWhile (· != '\n'))
  | '/' :: '*' :: c :: rest => some (afterComment (c :: rest))
  | '\ufeff' :: rest => some rest
  | c :: rest => if startsBlank c then some (rest.dropWhile Scalar.isSpace) else none
  | [] => none

/-- Skips blanks and comments. Each is a character at least, so the length of the text is enough fuel. -/
def skipBlanks : Nat → List Char → List Char
  | 0, cs => cs
  | fuel + 1, cs =>
    match afterBlank? cs with
    | some rest => skipBlanks fuel rest
    | none => cs

/-! ### Parameters -/

/-- The numbers given to parameters so far: the highest one, and those of the named ones. -/
structure Numbering where
  highest : Nat
  named : List (String × Nat)

namespace Numbering

/-- The highest number that a parameter can have. -/
def last : Nat := 32766

/-- The number of a parameter, and the numbering after it. One without a name or number takes the next
number, and so does a new name. -/
def place? (numbering : Numbering) (label : List Char) : Option (Nat × Numbering) :=
  let next := numbering.highest + 1
  match label with
  | ['?'] => if next ≤ last then some (next, { numbering with highest := next }) else none
  | '?' :: digits =>
    let place := Text.digitsValue digits
    if 1 ≤ place && place ≤ last then some (place, { numbering with highest := max numbering.highest place })
    else none
  | _ =>
    let name := String.ofList label
    match numbering.named.lookup name with
    | some found => some (found, numbering)
    | none => if next ≤ last then some (next, ⟨next, (name, next) :: numbering.named⟩) else none

end Numbering

/-! ### Lexemes -/

/-- The characters up to a quote that is not doubled, and what follows it. -/
def takeQuoted (quote : Char) : List Char → Option (List Char × List Char)
  | [] => none
  | [c] => if c = quote then some ([], []) else none
  | c :: d :: rest =>
    if c = quote then
      if d = quote then (takeQuoted quote rest).map fun (a, b) => (quote :: a, b) else some ([], d :: rest)
    else (takeQuoted quote (d :: rest)).map fun (a, b) => (c :: a, b)

/-- The characters up to a closing bracket, and what follows it. -/
def takeBracketed : List Char → Option (List Char × List Char)
  | [] => none
  | c :: rest =>
    if c = ']' then some ([], rest) else (takeBracketed rest).map fun (a, b) => (c :: a, b)

def marks : List (List Char) :=
  [['-', '>', '>'], ['-', '>'], ['('], [')'], [','], ['='], ['*'], ['-'], [';']]

/-- A letter, an underscore, or any character beyond ASCII. -/
def isWordStart (c : Char) : Bool := Text.isLetter c || c == '_' || 128 ≤ c.toNat

def isWordChar (c : Char) : Bool := isWordStart c || Text.isDigit c || c == '$'

/-- The number at the start of a text, which no word follows without a blank. -/
def takeNumber (cs : List Char) : Option (Lexeme × List Char) := do
  let (value, rest) ← Scalar.takeNumber (String.ofList cs)
  if (rest.head?.map isWordChar).getD false then none else return (.number value, rest)

/-- The label of the parameter at the start of a text, and what follows it. -/
def takeLabel? : List Char → Option (List Char × List Char)
  | '?' :: rest => some ('?' :: rest.takeWhile Text.isDigit, rest.dropWhile Text.isDigit)
  | c :: rest =>
    if c == '$' || c == ':' || c == '@' then
      let name := rest.takeWhile isWordChar
      if name.isEmpty then none else some (c :: name, rest.dropWhile isWordChar)
    else none
  | [] => none

/-- The lexeme other than a parameter that a text begins with, and what follows it. -/
def next (cs : List Char) : Option (Lexeme × List Char) :=
  match cs with
  | [] => none
  | '"' :: rest => (takeQuoted '"' rest).map fun (a, b) => (.name (String.ofList a), b)
  | '\x60' :: rest => (takeQuoted '\x60' rest).map fun (a, b) => (.name (String.ofList a), b)
  | '[' :: rest => (takeBracketed rest).map fun (a, b) => (.name (String.ofList a), b)
  | '\'' :: rest => (takeQuoted '\'' rest).map fun (a, b) => (.text (String.ofList a), b)
  | c :: _ =>
    if Text.isDigit c then takeNumber cs
    else if isWordStart c then
      let letters := cs.takeWhile isWordChar
      some (.word (String.ofList (letters.map Char.toLower)) (String.ofList letters), cs.dropWhile isWordChar)
    else (marks.find? (·.isPrefixOf cs)).map fun mark =>
      (.mark (String.ofList mark), cs.drop mark.length)

/-- All lexemes of a text that does not begin with a blank. Each takes a character at least, so the length of
the text is enough fuel. -/
def scan : Nat → Numbering → List Char → Option (List Found)
  | _, _, [] => some []
  | 0, _, _ => none
  | fuel + 1, numbering, cs => do
    let (lexeme, rest, numbering) ← match takeLabel? cs with
      | some (label, rest) => (numbering.place? label).map fun (place, after) => (.parameter place, rest, after)
      | none => (next cs).map fun (lexeme, rest) => (lexeme, rest, numbering)
    return ⟨lexeme, cs⟩ :: (← scan fuel numbering (skipBlanks fuel rest))

/-- The lexemes of a command, which ends at the first null character. -/
def ofText? (sql : String) : Option (List Found) :=
  let cs := sql.toList.takeWhile (· != '\x00')
  scan cs.length ⟨0, []⟩ (skipBlanks cs.length cs)

end Lexeme

end Dossier
