import Dossier.Fault
import Dossier.Text.Ascii
import Dossier.Text.Pieces

/-!
Words at the head of a filter array: the connectives, in any case, and the marker of an evaluator call
with the type it returns.
-/

namespace Dossier

inductive Connective where
  | and
  | or
  deriving DecidableEq, Repr, Inhabited

def Connective.word : Connective → String
  | .and => "AND"
  | .or => "OR"

inductive ReturnType where
  | boolean
  | number
  | text
  | json
  deriving DecidableEq, Repr, Inhabited

namespace ReturnType

def name : ReturnType → String
  | .boolean => "boolean"
  | .number => "number"
  | .text => "text"
  | .json => "json"

def ofName? (name : String) : Except CompileFault ReturnType :=
  match Text.asciiLower name with
  | "boolean" | "bool" => .ok .boolean
  | "number" | "numeric" => .ok .number
  | "text" | "string" => .ok .text
  | "json" | "jsonb" => .ok .json
  | other => .error (.unknownReturnType other)

end ReturnType

inductive Operator where
  | connective (connective : Connective)
  | call (returns : ReturnType)
  deriving DecidableEq, Repr, Inhabited

namespace Operator

def callMarker : String := "BIND"

/-- Calls without a named return type return a boolean. -/
def ofToken? (token : String) : Except CompileFault Operator :=
  if Text.equalIgnoringCase token Connective.and.word then .ok (.connective .and)
  else if Text.equalIgnoringCase token Connective.or.word then .ok (.connective .or)
  else match Text.cutAt ':' token.toList with
    | none => if token = callMarker then .ok (.call .boolean) else .error (.unknownOperator token)
    | some (marker, returns) =>
      if String.ofList marker = callMarker then .call <$> ReturnType.ofName? (String.ofList returns)
      else .error (.unknownOperator token)

end Operator

end Dossier
