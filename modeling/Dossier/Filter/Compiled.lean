import Dossier.Filter.Condition
import Dossier.Filter.Expression

/-!
Conditions as SQL. Each comparison and each call is a fragment of its own; a group joins its operands in
parentheses and skips those that every record meets.
-/

namespace Dossier

open Sql (Fragment Predicate)

namespace Target

/-- The comparison of an attribute with a value. -/
def comparison (target : Target) (key : Key) : Json → Fragment
  | .null => target.extraction key false ++ [.text " IS NULL"]
  | value =>
    let cast := if value.isContainer then .json else target.castOf key
    target.castExpression key cast ++ .text " = " :: target.boundValue value cast

def evaluator : String := "docstore_eval"

/-- A call of the evaluator with the inputs, the source of the function and the extra values. -/
def call (target : Target) (inputs : List Key) (source : String) (extra : List Json)
    (returns : ReturnType) : Fragment :=
  let extra := Json.text (.array extra)
  match target.dialect with
  | .postgres =>
    let values := Fragment.separated ", " (inputs.map (target.extraction · true))
    let body : Fragment :=
      .text (evaluator ++ "(jsonb_build_array(") :: values ++
        [.text "), ", .value (.string source), .text "::text, ", .value (.string extra), .text "::jsonb)"]
    match returns with
    | .boolean => Fragment.wrap "(" body ")::boolean"
    | .number => Fragment.wrap "(" body ")::numeric"
    | .text => Fragment.wrap "(" body ")::text"
    | .json => Fragment.wrap "(" body ")::jsonb"
  | .sqlite =>
    let values := Fragment.separated ", " (inputs.map (target.extraction · false))
    let body : Fragment :=
      .text (evaluator ++ "(json_array(") :: values ++
        [.text "), ", .value (.string source), .text ", ", .value (.string extra), .text ")"]
    match returns with
    | .boolean => Fragment.wrap "CAST(" body " AS INTEGER)"
    | .number => Fragment.wrap "CAST(" body " AS NUMERIC)"
    | .text => Fragment.wrap "CAST(" body " AS TEXT)"
    | .json => body

/-- The compiled call, with notes on its operator and on the type it returns. -/
def callPredicate (target : Target) (inputs : List Key) (source : String) (extra : List Json)
    (returns : ReturnType) : Predicate :=
  ((Predicate.ofFragment (target.call inputs source extra returns)).note "operator"
    (.string Operator.callMarker)).note "returns" (.string returns.name)

end Target

namespace Condition

mutual

def predicate (target : Target) : Condition → Predicate
  | .all => Predicate.empty
  | .equal key value => Predicate.ofFragment (target.comparison key value)
  | .call inputs source extra returns => target.callPredicate inputs source extra returns
  | .group connective operands => Predicate.join (predicates target operands) connective.word

def predicates (target : Target) : List Condition → List Predicate
  | [] => []
  | condition :: rest => predicate target condition :: predicates target rest

end

mutual

/-- The condition as text with every value written in its place as a literal. -/
def inline (target : Target) : Condition → String
  | .all => ""
  | .equal key value => (target.comparison key value).inline
  | .call inputs source extra returns => (target.call inputs source extra returns).inline
  | .group connective operands =>
    String.intercalate (" " ++ connective.word ++ " ") (inlineOperands target operands)

/-- The operands that are not met by every record, each in parentheses. -/
def inlineOperands (target : Target) : List Condition → List String
  | [] => []
  | condition :: rest =>
    let text := inline target condition
    if text.isEmpty then inlineOperands target rest
    else ("(" ++ text ++ ")") :: inlineOperands target rest

end

end Condition

namespace Target

def connectiveOf (matchAny : Bool) : Connective := if matchAny then .or else .and

/-- The predicate of a JSON filter. -/
def compile (target : Target) (matchAny : Bool) (filter : Json) : Except CompileFault Predicate :=
  (Condition.ofJson? target.kind (connectiveOf matchAny) filter).map (·.predicate target)

end Target

end Dossier
