import Dossier.Record.Payload
import Dossier.Sql.Dialect
import Dossier.Sql.Quote

/-!
Statements that write records. Columns of JSON are bound as text; every value has its own placeholder,
numbered in the order of the columns.
-/

namespace Dossier.Session

open Sql (Dialect quoteIdentifier)

/-- The placeholder with a number, converted where the dialect needs it. -/
def placeholder (dialect : Dialect) (type : ColumnType) (number : Nat) : String :=
  let plain := "$" ++ toString number
  match dialect, type with
  | .postgres, .json => plain ++ "::jsonb"
  | .postgres, .timestamp => plain ++ "::timestamptz"
  | _, _ => plain

/-- The parameter that a column takes for a value. -/
def columnParam (type : ColumnType) (value : Json) : Json :=
  match type with
  | .json => .string value.text
  | _ => value

/-- A column with the value to be written there. -/
abbrev Assignment := Column × Json

def Assignment.param (assignment : Assignment) : Json := columnParam assignment.1.type assignment.2

/-- The placeholders of columns, numbered from 1. -/
def placeholders (dialect : Dialect) (assignments : List Assignment) : List String :=
  assignments.zipIdx.map fun (assignment, index) => placeholder dialect assignment.1.type (index + 1)

def columnNames (assignments : List Assignment) : List String :=
  assignments.map fun assignment => quoteIdentifier assignment.1.name

/-- What a new row is given: the identity and every writable column of the record. -/
def insertedColumns (kind : Kind) (row : Row) : List Assignment :=
  row.filterMap fun (name, value) =>
    if Kind.writable name || name == identityName then
      (kind.columns.find? (·.name == name)).map (·, value)
    else none

def insertion (dialect : Dialect) (kind : Kind) (row : Row) : String × List Json :=
  let assignments := insertedColumns kind row
  let table := quoteIdentifier kind.table
  if assignments.isEmpty then ("INSERT INTO " ++ table ++ " DEFAULT VALUES RETURNING *", [])
  else
    ("INSERT INTO " ++ table ++ " (" ++ String.intercalate ", " (columnNames assignments) ++ ") VALUES (" ++
      String.intercalate ", " (placeholders dialect assignments) ++ ") RETURNING *",
      assignments.map Assignment.param)

/-- The writable columns whose text differs between two rows, with their new values. -/
def changedColumns (kind : Kind) (before after : Row) : List Assignment :=
  kind.columns.filterMap fun column =>
    let old := Members.get? before column.name
    let new := Members.get? after column.name
    if !Kind.writable column.name || old.map Json.text == new.map Json.text then none
    else some (column, new.getD .null)

def modification (dialect : Dialect) (kind : Kind) (assignments : List Assignment) (id : String) :
    String × List Json :=
  let settings := List.zipWith (fun name value => name ++ " = " ++ value) (columnNames assignments)
    (placeholders dialect assignments)
  ("UPDATE " ++ quoteIdentifier kind.table ++ " SET " ++ String.intercalate ", " settings ++
    " WHERE \"id\" = $" ++ toString (assignments.length + 1) ++ " RETURNING *",
    assignments.map Assignment.param ++ [.string id])

def removal (kind : Kind) (id : String) : String × List Json :=
  ("DELETE FROM " ++ quoteIdentifier kind.table ++ " WHERE \"id\" = $1 RETURNING \"id\"", [.string id])

end Dossier.Session
