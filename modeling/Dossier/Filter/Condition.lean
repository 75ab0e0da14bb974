import Dossier.Filter.Key
import Dossier.Filter.Operator

/-!
Conditions on records, read from JSON filters. `null` is met by every record; an object asks that each
named attribute equals its value; an array combines its operands by the connective at its head, or calls
the external evaluator on the attributes before a function and the values after it.
-/

namespace Dossier

inductive Condition where
  | all
  | equal (key : Key) (value : Json)
  | call (inputs : List Key) (source : String) (extra : List Json) (returns : ReturnType)
  | group (connective : Connective) (operands : List Condition)
  deriving Repr, Inhabited

namespace Condition

/-- The member that holds the source of a function. -/
def functionName : String := "$fn"

/-- The source of a function value. -/
def function? (value : Json) : Option String := (value.get? functionName).bind Json.string?

/-- The values around the first function of a call, and its source. -/
def cutAtFunction : List Json → Option (List Json × String × List Json)
  | [] => none
  | item :: rest =>
    match function? item with
    | some source => some ([], source, rest)
    | none => (cutAtFunction rest).map fun (before, source, after) => (item :: before, source, after)

def readInput (kind : Kind) : Json → Except CompileFault Key
  | .string text => Key.ofText? kind text
  | other => .error (.inputNotKey other)

def readCall (kind : Kind) (returns : ReturnType) (items : List Json) : Except CompileFault Condition :=
  match cutAtFunction items with
  | none => .error .callWithoutFunction
  | some (before, source, after) => do
    let inputs ← before.mapM (readInput kind)
    return .call inputs source after returns

mutual

/-- Reads a filter. `connective` combines the members of objects. -/
def ofJson? (kind : Kind) (connective : Connective) : Json → Except CompileFault Condition
  | .null => .ok .all
  | .object members =>
    if Members.contains members functionName then .error .functionOutsideCall
    else (readMembers kind members).map (.group connective)
  | .array (.string token :: rest) =>
    match Operator.ofToken? token with
    | .error fault => .error fault
    | .ok (.call returns) => readCall kind returns rest
    | .ok (.connective inner) => (readItems kind connective inner rest).map (.group inner)
  | .array items => (readItems kind connective .and items).map (.group .and)
  | scalar => .error (.scalarFilter scalar)

def readMembers (kind : Kind) : List (String × Json) → Except CompileFault (List Condition)
  | [] => .ok []
  | (name, value) :: rest => do
    let key ← Key.ofText? kind name
    let conditions ← readMembers kind rest
    return .equal key value :: conditions

/-- Reads the operands of an array that the connective `inner` combines. -/
def readItems (kind : Kind) (connective inner : Connective) :
    List Json → Except CompileFault (List Condition)
  | [] => .ok []
  | .string token :: _ => .error (.unexpectedToken (.string token) inner.word)
  | item :: rest => do
    let condition ← ofJson? kind connective item
    let conditions ← readItems kind connective inner rest
    return condition :: conditions

end

end Condition

end Dossier
