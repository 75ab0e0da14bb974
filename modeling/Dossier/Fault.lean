import Dossier.Json.Text
import Dossier.Record.Kind
import Dossier.Session.Phase

/-!
What can go wrong, by cause, and the message of each cause.
-/

namespace Dossier

/-- Why a filter, an ordering, a field or a statement cannot be compiled. -/
inductive CompileFault where
  | unknownOperator (token : String)
  | unknownReturnType (name : String)
  | notAColumn (key table : String)
  | notATimestamp (key : String)
  | invalidKey (key : String)
  | scalarFilter (value : Json)
  | functionOutsideCall
  | unexpectedToken (item : Json) (keyword : String)
  | callWithoutFunction
  | inputNotKey (input : Json)
  | invalidEntry (entry : Json)
  | invalidEntryKey (head : Json)
  | invalidEntryToken (token : Json)
  | invalidField (field : Json)
  | relationWithoutSource (relation : Json)
  | relationFieldNotKey (field : Json)
  | noFields
  | updateWithoutIdentity
  deriving Repr, Inhabited

/-- Why storage, or a look at the results it gave, failed. -/
inductive ExecutionFault where
  | reported (message : String)
  | closed
  | manyResults (count : Nat)
  | refused
  deriving Repr, Inhabited

inductive EventFault where
  | badTypeName (name : String)
  | badIdentity (id : String)
  | badEventName (name : String)
  | badPayload (payload : String)
  deriving Repr, Inhabited

inductive GraphFault where
  | cycle (node : Nat)
  | unknownNode (node : Nat)
  deriving Repr, Inhabited

/-- Why a JSON value or text is not what was asked for. -/
inductive JsonFault where
  | notAnObject (value : Json)
  | invalidLimit (value : Json)
  | invalidFields (value : Json)
  | badColumn (column : String) (kind : Kind)
  | malformed
  deriving Repr, Inhabited

inductive Missing where
  | record (kind : Kind) (id : String)
  | migration (step : Int)
  deriving Repr, Inhabited

inductive Fault where
  | settings
  | compile (cause : CompileFault)
  | execution (cause : ExecutionFault)
  | wrongPhase (phase : Phase) (operation : Operation)
  | event (cause : EventFault)
  | graph (cause : GraphFault)
  | json (cause : JsonFault)
  | notFound (what : Missing)
  | placeholders (found params : Nat) (sql : String)
  deriving Repr, Inhabited

def CompileFault.message : CompileFault → String
  | .unknownOperator token => s!"unknown operator token '{token}'"
  | .unknownReturnType name => s!"unknown BIND return type '{name}'"
  | .notAColumn key table => s!"'{key}' is not a column of {table}"
  | .notATimestamp key => s!"'{key}' requests epoch milliseconds from a non-timestamp column"
  | .invalidKey key => s!"invalid key syntax '{key}'"
  | .scalarFilter value => "scalar " ++ value.text ++ " cannot be used as a predicate"
  | .functionOutsideCall => "function value outside of a BIND array"
  | .unexpectedToken item keyword =>
    "unexpected token " ++ item.text ++ " inside an " ++ keyword ++ " array"
  | .callWithoutFunction => "BIND array without a predicate function"
  | .inputNotKey input => "BIND input " ++ input.text ++ " is not a key"
  | .invalidEntry entry => "invalid ordering entry " ++ entry.text
  | .invalidEntryKey head => "invalid ordering key " ++ head.text
  | .invalidEntryToken token => "invalid ordering token " ++ token.text
  | .invalidField field => "invalid field " ++ field.text
  | .relationWithoutSource relation => "relation " ++ relation.text ++ " lacks a sourceProperty"
  | .relationFieldNotKey field => "relation field " ++ field.text ++ " is not a key"
  | .noFields => "a query needs at least one field"
  | .updateWithoutIdentity => "update needs a string 'id'"

def ExecutionFault.message : ExecutionFault → String
  | .reported message => message
  | .closed => "connection is closed"
  | .manyResults count => s!"expected at most one result, got {count}"
  | .refused => "statement refused"

def EventFault.message : EventFault → String
  | .badTypeName name => s!"bad type name '{name}'"
  | .badIdentity id => s!"bad identity '{id}'"
  | .badEventName name => s!"bad event name '{name}'"
  | .badPayload payload => s!"unrecognized payload {payload}"

def GraphFault.message : GraphFault → String
  | .cycle node => s!"cycle through node {node}"
  | .unknownNode node => s!"unknown node {node}"

def JsonFault.message : JsonFault → String
  | .notAnObject value => "expected an object, got " ++ value.text
  | .invalidLimit value => "invalid limit " ++ value.text
  | .invalidFields value => "invalid field selection " ++ value.text
  | .badColumn column kind => "column '" ++ column ++ "' of " ++ kind.table
  | .malformed => "malformed value"

def Missing.message : Missing → String
  | .record kind id => kind.table ++ " " ++ id
  | .migration step => s!"migration step {step}"

def Fault.message : Fault → String
  | .settings => "Config error: unusable settings"
  | .compile cause => "Compile error: " ++ cause.message
  | .execution cause => "Execution error: " ++ cause.message
  | .wrongPhase phase operation =>
    "State error: cannot " ++ operation.name ++ " a session in state '" ++ phase.name ++ "'"
  | .event cause => "Invalid event identifier: " ++ cause.message
  | .graph cause => "Graph error: " ++ cause.message
  | .json cause => "JSON error: " ++ cause.message
  | .notFound what => "Not found: " ++ what.message
  | .placeholders found params sql =>
    s!"Internal invariant violated: {found} placeholders for {params} parameters in: {sql}"

end Dossier
