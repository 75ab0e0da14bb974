import Dossier.Record.Payload
import Dossier.Search.Query

/-!
Decoding of result rows. Each selected field is put where it lands on the record; fields of the payload
are nested along their paths, and the record is then decoded and flattened.
-/

namespace Dossier

open Sql (Dialect render)

/-- Puts a value at a path; whatever on the way is no object gives way to one. -/
def Json.nest : List String → Json → Json → Json
  | [], value, _ => value
  | name :: path, value, slot =>
    let members := (slot.object?).getD []
    .object (Members.insert name (nest path value ((Members.get? members name).getD .null)) members)

namespace Statement

/-- An extracted value; where the dialect hands JSON back as text, text that is JSON is parsed. -/
def extracted (statement : Statement) (value : Json) : Json :=
  match statement.dialect, value with
  | .sqlite, .string text => (Json.ofText? text).getD value
  | _, _ => value

/-- Puts the value of one field where it lands. -/
def land (statement : Statement) (record : Row) (landing : Landing) (value : Json) : Row :=
  match landing with
  | .column name => Members.insert name value record
  | .payload column path =>
    let slot := (Members.get? record column).getD (.object [])
    Members.insert column (Json.nest path (statement.extracted value) slot) record
  | .related => Members.insert relatedName (statement.extracted value) record

/-- The fields of a row in their places, before it is decoded as a stored row. -/
def gather (statement : Statement) (row : Row) : Row :=
  statement.landings.foldl
    (fun record (name, landing) => statement.land record landing ((Members.get? row name).getD .null)) []

/-- The record of a row, or the bare count. -/
def decode (statement : Statement) (row : Row) : Except Fault Json :=
  if statement.count then .ok ((Members.get? row "count").getD (.nat 0))
  else (statement.kind.decodeRow (statement.gather row)).map fun record =>
    .object (statement.kind.flatten record)

def rendered (statement : Statement) : String := render statement.sql statement.params

end Statement

end Dossier
