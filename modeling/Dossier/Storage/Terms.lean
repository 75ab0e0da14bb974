import Dossier.Storage.Expression

/-!
Conditions taken apart into terms that must all hold, and what each term says about columns. A term that gives
a column a constant value decides the column in all other terms.
-/

namespace Dossier.Expression

/-- The parts of a conjunction, which must all hold. -/
def conjuncts : Expression → List Expression
  | .and a b => conjuncts a ++ conjuncts b
  | condition => [condition]

/-- The parts of a disjunction, of which one must hold. -/
def disjuncts : Expression → List Expression
  | .or a b => disjuncts a ++ disjuncts b
  | condition => [condition]

def isDisjunction : Expression → Bool
  | .or _ _ => true
  | _ => false

/-- The number of disjunctions in a condition. -/
def choices : Expression → Nat
  | .or a b => choices a + choices b + 1
  | .and a b => choices a + choices b
  | _ => 0

mutual

/-- The columns that an expression names, with or without those whose values are given. -/
def columns (withGiven : Bool) : Expression → List String
  | .literal _ | .parameter _ => []
  | .column name => [name]
  | .given name _ => if withGiven then [name] else []
  | .part _ a b | .times a b | .minus a b | .equal a b | .and a b | .or a b =>
    columns withGiven a ++ columns withGiven b
  | .isNull a | .cast _ _ a => columns withGiven a
  | .call _ arguments => columnsOfAll withGiven arguments

def columnsOfAll (withGiven : Bool) : List Expression → List String
  | [] => []
  | a :: rest => columns withGiven a ++ columnsOfAll withGiven rest

end

mutual

/-- Whether an expression has one value however often it is evaluated. The evaluator promises no such thing. -/
def isRepeatable : Expression → Bool
  | .literal _ | .parameter _ | .column _ => true
  | .given _ a | .isNull a | .cast _ _ a => isRepeatable a
  | .part _ a b | .times a b | .minus a b | .equal a b | .and a b | .or a b => isRepeatable a && isRepeatable b
  | .call function arguments => function != "docstore_eval" && areRepeatable arguments

def areRepeatable : List Expression → Bool
  | [] => true
  | a :: rest => isRepeatable a && areRepeatable rest

end

/-- Whether an expression looks at records. -/
def looksAtRecords (e : Expression) : Bool := !(e.columns false).isEmpty

/-- Whether an expression is decided before any record is looked at. -/
def isSettled (e : Expression) : Bool := !e.looksAtRecords && e.isRepeatable

/-- Whether the columns that an expression names are all the same one. -/
def isOnlyOn (name : String) (e : Expression) : Bool := (e.columns true).all (· == name)

/-! ### What terms say -/

/-- The column that an expression is, its value given or not. -/
def columnOf? : Expression → Option String
  | .column name | .given name _ => some name
  | _ => none

/-- The column and the value that a term says are equal. -/
def equality? : Expression → Option (String × Expression)
  | .equal a b => if b.looksAtRecords then none else a.columnOf?.map (·, b)
  | _ => none

/-- The column that a term says is null. -/
def absence? : Expression → Option String
  | .isNull a => a.columnOf?
  | _ => none

/-- The column that a term compares or looks for null. -/
def subject? (e : Expression) : Option String := (e.equality?.map Prod.fst).or e.absence?

/-- The column and the values of a disjunction that says the column equals one of them. -/
def membership? (e : Expression) : Option (String × List Expression) := do
  let (name, _) ← e.disjuncts.head?.bind equality?
  let values ← e.disjuncts.mapM fun part => do
    let (other, sought) ← part.equality?
    if other = name then some sought else none
  if e.isDisjunction then return (name, values) else none

/-- Whether a column can be looked up by a term. -/
def isSearchable (e : Expression) : Bool := e.subject?.isSome || e.membership?.isSome

/-- Whether each part of a disjunction has a term by which a column can be looked up. -/
def isDivisible (e : Expression) : Bool :=
  e.isDisjunction && e.disjuncts.all fun part => part.conjuncts.any isSearchable

/-! ### Given values -/

/-- The column to which a term gives a constant value, and the value. -/
def gift? : Expression → Option (String × Expression)
  | .equal (.column name) value =>
    match value with
    | .cast _ _ _ => none
    | _ => if value.isSettled then some (name, value) else none
  | _ => none

mutual

/-- Puts given values in the place of columns. -/
def give (gifts : List (String × Expression)) : Expression → Expression
  | .column name =>
    match gifts.lookup name with
    | some value => .given name value
    | none => .column name
  | .literal v => .literal v
  | .parameter number => .parameter number
  | .given name a => .given name a
  | .part asValue a b => .part asValue (give gifts a) (give gifts b)
  | .times a b => .times (give gifts a) (give gifts b)
  | .minus a b => .minus (give gifts a) (give gifts b)
  | .equal a b => .equal (give gifts a) (give gifts b)
  | .and a b => .and (give gifts a) (give gifts b)
  | .or a b => .or (give gifts a) (give gifts b)
  | .isNull a => .isNull (give gifts a)
  | .cast affinity whole a => .cast affinity whole (give gifts a)
  | .call function arguments => .call function (giveAll gifts arguments)

def giveAll (gifts : List (String × Expression)) : List Expression → List Expression
  | [] => []
  | a :: rest => give gifts a :: giveAll gifts rest

end

/-- The terms that give columns their values, by position; the last one that names a column counts. -/
def givers (terms : List Expression) : List (Nat × String × Expression) :=
  terms.zipIdx.foldr (fun (term, position) found =>
    match term.gift? with
    | some (name, value) => if found.any (·.2.1 == name) then found else (position, name, value) :: found
    | none => found) []

/-- Gives columns their values everywhere but in the terms that say them. -/
def spread (terms : List Expression) : List Expression :=
  let givers := givers terms
  let gifts := givers.map Prod.snd
  terms.zipIdx.map fun (term, position) =>
    if givers.any (·.1 == position) then term else term.give gifts

/-- Puts a literal zero in the place of conditions that a required column is null. -/
def withoutAbsent (around : Surroundings) : Expression → Expression
  | .and a b => .and (withoutAbsent around a) (withoutAbsent around b)
  | .or a b => .or (withoutAbsent around a) (withoutAbsent around b)
  | .isNull (.column name) =>
    if ((around.column? name).map (·.required)).getD false then .literal (.integer 0) else .isNull (.column name)
  | condition => condition

/-- The terms of a condition by which records are retrieved. -/
def terms (around : Surroundings) (condition : Expression) : List Expression :=
  spread (withoutAbsent around condition).conjuncts

end Dossier.Expression
