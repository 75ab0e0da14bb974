import Dossier.Sql.Placeholder

/-!
SQL text with its parameters. A fragment is text in which values are still in their places; it becomes a
predicate by numbering its values from `$1`, or plain text by writing each value as its literal.
-/

namespace Dossier.Sql

/-- SQL text, its parameters in the order of their placeholders, and notes on how it was made. -/
structure Predicate where
  format : String
  params : List Json
  notes : Members
  deriving Repr, Inhabited

inductive Piece where
  | text (sql : String)
  | value (value : Json)
  deriving Repr, Inhabited

abbrev Fragment := List Piece

namespace Fragment

/-- The text with values numbered on from `next`. -/
def formatFrom : Nat → Fragment → String
  | _, [] => ""
  | next, .text sql :: rest => sql ++ formatFrom next rest
  | next, .value _ :: rest => String.ofList (numbered next) ++ formatFrom (next + 1) rest

def params : Fragment → List Json
  | [] => []
  | .text _ :: rest => params rest
  | .value v :: rest => v :: params rest

/-- The text with every value written in its place. -/
def inline : Fragment → String
  | [] => ""
  | .text sql :: rest => sql ++ inline rest
  | .value v :: rest => literal v ++ inline rest

def wrap (before : String) (fragment : Fragment) (after : String) : Fragment :=
  .text before :: fragment ++ [.text after]

/-- Fragments one after another with a separator between them. -/
def separated (separator : String) : List Fragment → Fragment
  | [] => []
  | [fragment] => fragment
  | fragment :: rest => fragment ++ .text separator :: separated separator rest

end Fragment

namespace Predicate

def empty : Predicate := ⟨"", [], []⟩

def ofParts (format : String) (params : List Json) : Predicate := ⟨format, params, []⟩

def ofFragment (fragment : Fragment) : Predicate :=
  ofParts (Fragment.formatFrom 0 fragment) fragment.params

def note (name : String) (value : Json) (p : Predicate) : Predicate :=
  { p with notes := Members.insert name value p.notes }

def isEmpty (p : Predicate) : Bool := p.format.isEmpty

def parenthesised (p : Predicate) : String := "(" ++ p.format ++ ")"

/-- The predicates that are not empty, each in parentheses, with a word between them. -/
def join (predicates : List Predicate) (word : String) : Predicate :=
  match predicates.filter (!·.isEmpty) with
  | [] => empty
  | kept =>
    let format := String.intercalate (" " ++ word ++ " ") (kept.map parenthesised)
    (ofParts format (kept.flatMap params)).note "operator" (.string word)

def rendered (p : Predicate) : String := render p.format p.params

end Predicate

end Dossier.Sql
