import Dossier.Filter.Key
import Dossier.Record.Schema
import Dossier.Sql.Dialect
import Dossier.Sql.Predicate

/-!
SQL expressions for keys and values. A column stands for itself; an attribute of the payload is extracted
by its path and cast to the sort that the schema gives it; a value is bound in the form that compares
with the expression.
-/

namespace Dossier

open Sql (Fragment Dialect quoteIdentifier)

/-- What conditions are compiled for. -/
structure Target where
  kind : Kind
  schema : Schema
  dialect : Dialect
  deriving Inhabited

inductive Cast where
  | direct
  | text
  | numeric
  | boolean
  | json
  deriving DecidableEq, Repr, Inhabited

namespace Target

def payloadColumn (target : Target) : String := quoteIdentifier target.kind.payload

/-- How an expression for the key is cast before it is compared with a scalar. -/
def castOf (target : Target) : Key → Cast
  | .column _ _ => .direct
  | .path segments =>
    match target.schema.propertyType segments with
    | some "number" | some "integer" => .numeric
    | some "boolean" => .boolean
    | some "object" | some "array" => .json
    | _ => .text

/-- A step of a JSON path: all digits index an array, everything else names a member. -/
def pathStep (segment : String) : String :=
  if segment.toList.all Text.isDigit then "[" ++ segment ++ "]" else ".\"" ++ segment ++ "\""

def jsonPath (segments : List String) : String := "$" ++ String.join (segments.map pathStep)

/-- The milliseconds since 1970 of a timestamp column. -/
def epochOf (dialect : Dialect) (column : String) : String :=
  match dialect with
  | .postgres => "(extract(epoch from " ++ column ++ ") * 1000)::bigint"
  | .sqlite => "CAST((julianday(" ++ column ++ ") - 2440587.5) * 86400000 AS INTEGER)"

/-- The column, or the extraction from the payload: of JSON when `raw`, of text otherwise. -/
def extraction (target : Target) (key : Key) (raw : Bool) : Fragment :=
  match key with
  | .column c false => [.text (quoteIdentifier c.name)]
  | .column c true => [.text (epochOf target.dialect (quoteIdentifier c.name))]
  | .path segments =>
    let arrow := if raw then "->" else "->>"
    match target.dialect, segments with
    | .sqlite, _ => [.text (target.payloadColumn ++ arrow), .value (.string (jsonPath segments))]
    | .postgres, [segment] =>
      [.text (target.payloadColumn ++ arrow), .value (.string segment), .text "::text"]
    | .postgres, _ =>
      let path := "\x7b" ++ String.intercalate "," segments ++ "\x7d"
      let hash := if raw then "#>" else "#>>"
      [.text (target.payloadColumn ++ hash), .value (.string path), .text "::text[]"]

def castExpression (target : Target) (key : Key) (cast : Cast) : Fragment :=
  let text := target.extraction key false
  match cast, target.dialect with
  | .direct, _ => text
  | .json, _ => target.extraction key true
  | .text, .postgres => Fragment.wrap "(" text ")"
  | .text, .sqlite => Fragment.wrap "CAST(" text " AS TEXT)"
  | .numeric, .postgres => Fragment.wrap "(" text ")::numeric"
  | .numeric, .sqlite => Fragment.wrap "CAST(" text " AS NUMERIC)"
  | .boolean, .postgres => Fragment.wrap "(" text ")::boolean"
  | .boolean, .sqlite => Fragment.wrap "CAST(" text " AS INTEGER)"

/-- The text that a value is compared by; strings are their own. -/
def comparedText : Json → String
  | .string s => s
  | other => other.text

def boundValue (target : Target) (value : Json) (cast : Cast) : Fragment :=
  match cast, target.dialect with
  | .direct, _ => [.value value]
  | .text, _ => [.value (.string (comparedText value))]
  | .numeric, .postgres => [.value value, .text "::numeric"]
  | .boolean, .postgres => [.value value, .text "::boolean"]
  | .numeric, .sqlite | .boolean, .sqlite => [.value value]
  | .json, .postgres => [.value (.string value.text), .text "::jsonb"]
  | .json, .sqlite => Fragment.wrap "json(" [.value (.string value.text)] ")"

end Target

end Dossier
