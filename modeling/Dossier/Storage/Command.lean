import Dossier.Storage.Expression

/-!
Commands that the store understands.
-/

namespace Dossier

/-- What a command gives back for a row. -/
inductive Output where
  | value (expression : Expression) (name : String)
  | count (name : String)
  deriving Repr, Inhabited

structure SortKey where
  expression : Expression
  descending : Bool
  /-- Whether nulls come first; the order itself decides when nothing is said. -/
  nullsFirst : Option Bool
  deriving Repr, Inhabited

structure Retrieval where
  columns : List Output
  table : Option String
  condition : Option Expression
  groups : List Expression
  order : List SortKey
  limit : Option Scalar
  offset : Option Scalar
  deriving Repr, Inhabited

/-- The columns that a writing command returns: none, one, or all. -/
inductive Returning where
  | nothing
  | column (name : String)
  | all
  deriving Repr, Inhabited

inductive Command where
  | select (retrieval : Retrieval)
  | insert (table : String) (columns : List String) (values : List Expression) (returning : Returning)
  | update (table : String) (settings : List (String × Expression)) (condition : Option Expression)
      (returning : Returning)
  | delete (table : String) (condition : Option Expression) (returning : Returning)
  deriving Repr, Inhabited

end Dossier
