import Dossier.Filter.Compiled

/-!
Entries of orderings and groupings: a key, or an array of a head and the words after it. The head is a key
or a filter array. Words are compared without regard to case, in which a long s counts as an s, and are
written with their ASCII letters in upper case.
-/

namespace Dossier

open Sql (Predicate)

namespace Target

def orderWords : List String := ["ASC", "DESC", "NULLS", "FIRST", "LAST"]

/-- The capital that a character stands for in words of orderings. -/
def foldLetter (c : Char) : Char := if c = 'ſ' then 'S' else c.toUpper

def isOrderWord (text : String) : Bool := orderWords.contains (String.ofList (text.toList.map foldLetter))

/-- The words after the head of an entry, each after a space. -/
def orderSuffix : List Json → Except CompileFault String
  | [] => .ok ""
  | .string word :: rest =>
    if isOrderWord word then (orderSuffix rest).map (" " ++ Text.asciiUpper word ++ ·)
    else .error (.invalidEntryToken (.string word))
  | other :: _ => .error (.invalidEntryToken other)

def orderHead (target : Target) (matchAny : Bool) : Json → Except CompileFault Predicate
  | .string text => do
    let key ← Key.ofText? target.kind text
    return Predicate.ofFragment (target.castExpression key (target.castOf key))
  | .array items => target.compile matchAny (.array items)
  | other => .error (.invalidEntryKey other)

def orderEntry (target : Target) (matchAny : Bool) (head : Json) (words : List Json) :
    Except CompileFault Predicate := do
  let predicate ← target.orderHead matchAny head
  let suffix ← orderSuffix words
  return { predicate with format := predicate.format ++ suffix }

def compileOrder (target : Target) (matchAny : Bool) : Json → Except CompileFault Predicate
  | .string text => target.orderEntry matchAny (.string text) []
  | .array (head :: words) => target.orderEntry matchAny head words
  | other => .error (.invalidEntry other)

end Target

end Dossier
