import Dossier.Text.Pieces
import Dossier.Toml.Entry
import Dossier.Toml.Quoted
import Dossier.Toml.Scalar

/-!
A reader of TOML texts: keys, values, and the lines that put values into tables.
-/

namespace Dossier.Toml

open Settings (Table Value)

/-- How deep arrays and inline tables nest, and how many names a key has at most. -/
def maxDepth : Nat := 80

def readKeyPart (cs : List Char) : Option (String × List Char) :=
  match cs with
  | '"' :: rest => readBasic (rest.length + 1) [] rest
  | '\'' :: rest => readLiteral rest
  | _ =>
    let bare := cs.takeWhile Text.isSegmentChar
    if bare.isEmpty then none else some (String.ofList bare, cs.dropWhile Text.isSegmentChar)

/-- A dotted key of at most so many names. -/
def readKeyParts : Nat → List Char → Option (List String × List Char)
  | 0, _ => none
  | most + 1, cs => do
    let (part, rest) ← readKeyPart (skipSpaces cs)
    match skipSpaces rest with
    | '.' :: rest => do
      let (parts, rest) ← readKeyParts most rest
      return (part :: parts, rest)
    | rest => return ([part], rest)

def readKey (cs : List Char) : Option (List String × List Char) := readKeyParts maxDepth cs

/-- A character of a value without quotes. -/
def isPlain (c : Char) : Bool := !("=,[]\x7b\x7d#\r\n".toList.contains c) && !isSpace c

/-- A value without quotes, and what follows it. Blanks inside it belong to it; `pending` are those of which
that is not yet known. -/
def takePlain (pending : List Char) : List Char → List Char × List Char
  | [] => ([], pending.reverse)
  | c :: rest =>
    if isSpace c then takePlain (c :: pending) rest
    else if isPlain c then
      let (taken, rest) := takePlain [] rest
      (pending.reverse ++ c :: taken, rest)
    else ([], pending.reverse ++ c :: rest)

mutual

/-- A value that nests at most `depth` deep. -/
def readValue : Nat → (depth : Nat) → List Char → Option (Value × List Char)
  | 0, _, _ => none
  | fuel + 1, depth, cs =>
    match cs, depth with
    | '[' :: _, 0 | '{' :: _, 0 => none
    | '[' :: rest, depth + 1 => readItems fuel depth [] rest
    | '{' :: rest, depth + 1 => readInline fuel depth [] rest
    | cs, _ =>
      match readString? cs with
      | some found => found.map fun (s, rest) => (.text s, rest)
      | none =>
        let (raw, rest) := takePlain [] cs
        (scalar? raw).map (·, rest)

/-- The items of an array up to its bracket, after those already read, which come reversed. -/
def readItems : Nat → (depth : Nat) → List Value → List Char → Option (Value × List Char)
  | 0, _, _, _ => none
  | fuel + 1, depth, read, cs => do
    match ← skipLines false cs with
    | ']' :: rest => return (.list read.reverse, rest)
    | cs => do
      let (item, rest) ← readValue fuel depth cs
      match ← skipLines false rest with
      | ',' :: rest => readItems fuel depth (item :: read) rest
      | ']' :: rest => return (.list (item :: read).reverse, rest)
      | _ => none

/-- The entries of an inline table up to its brace, after those already read. -/
def readInline : Nat → (depth : Nat) → Entries → List Char → Option (Value × List Char)
  | 0, _, _, _ => none
  | fuel + 1, depth, read, cs => do
    match ← skipLines false cs with
    | '}' :: rest => return (.table (Entries.toTable read), rest)
    | cs => do
      let (path, rest) ← readKey cs
      match rest with
      | '=' :: rest => do
        let (value, rest) ← readValue fuel depth (skipSpaces rest)
        let read ← Entries.place value path true read
        match ← skipLines false rest with
        | ',' :: rest => readInline fuel depth read rest
        | '}' :: rest => return (.table (Entries.toTable read), rest)
        | _ => none
      | _ => none

end

/-- Reads lines into the table of the header `current`. -/
def readLines : Nat → List String → Entries → List Char → Option Entries
  | 0, _, _, _ => none
  | fuel + 1, current, entries, cs => do
    match ← skipLines false cs with
    | [] => return entries
    | '[' :: '[' :: rest => do
      let (path, rest) ← readKey rest
      match rest with
      | ']' :: ']' :: rest => do
        let entries ← Entries.changeAt (Entries.addTable (path.getLast?.getD "")) path.dropLast entries
        readLines fuel path entries (← endLine false rest)
      | _ => none
    | '[' :: rest => do
      let (path, rest) ← readKey rest
      match rest with
      | ']' :: rest => do
        let entries ← Entries.changeAt (Entries.openTable (path.getLast?.getD "")) path.dropLast entries
        readLines fuel path entries (← endLine false rest)
      | _ => none
    | cs => do
      let (path, rest) ← readKey cs
      match rest with
      | '=' :: rest => do
        let (value, rest) ← readValue (2 * rest.length + 2) maxDepth (skipSpaces rest)
        let entries ← Entries.changeAt (Entries.place value path true) current entries
        readLines fuel current entries (← endLine false rest)
      | _ => none

/-- The table that a whole text denotes. A byte order mark may come first. -/
def ofText? (text : String) : Option Table :=
  let cs := match text.toList with
    | '\ufeff' :: rest => rest
    | cs => cs
  (readLines (cs.length + 1) [] [] cs).map Entries.toTable

end Dossier.Toml
