import Dossier.Fault
import Dossier.Json.Reader

/-!
Flat records and stored rows. `flatten` lifts the payload's attributes onto the record, `partition` moves
every attribute without a column of its own back into the payload, and `decodeRow` parses JSON columns
that arrive as text.
-/

namespace Dossier

/-- A stored row or a flat record: attributes in the order of their names. -/
abbrev Row := Members

namespace Kind

/-- Lifts payload attributes onto the row, except those that are reserved or already there. -/
def lift (kind : Kind) (row : Row) : Members → Row
  | [] => row
  | (name, value) :: rest =>
    if kind.isReserved name || row.contains name then lift kind row rest
    else lift kind (row.insert name value) rest

/-- The flat record of a row: the payload column gives way to the attributes it holds. -/
def flatten (kind : Kind) (row : Row) : Row :=
  match row.get? kind.payload with
  | some (.object payload) => kind.lift (row.erase kind.payload) payload
  | _ => row.erase kind.payload

/-- The attributes of an explicit payload object that may stay in the payload. -/
def explicitPayload (kind : Kind) (record : Row) : Members :=
  match record.get? kind.payload with
  | some (.object explicit) => explicit.filter fun (name, _) => !kind.isReserved name
  | _ => []

/-- The attributes of a record that are neither reserved nor the payload itself. -/
def looseAttributes (kind : Kind) (record : Row) : Members :=
  record.filter fun (name, _) => !kind.isReserved name && name != kind.payload

/-- The stored row of a flat record: reserved attributes, and a payload in which loose attributes win over
those of an explicit payload object. -/
def partition (kind : Kind) (record : Row) : Row :=
  let payload := (kind.looseAttributes record).foldl
    (fun payload (name, value) => Members.insert name value payload) (kind.explicitPayload record)
  let row : Row := record.filter fun (name, _) => kind.isReserved name && name != kind.payload
  Members.insert kind.payload (.object payload) row

/-- Parses the JSON columns that hold text, in column order. -/
def decodeColumns (kind : Kind) (row : Row) : List Column → Except Fault Row
  | [] => .ok row
  | column :: rest =>
    if column.type = .json then
      match row.get? column.name with
      | some (.string text) =>
        match Json.ofText? text with
        | some value => decodeColumns kind (row.insert column.name value) rest
        | none => .error (.json (.badColumn column.name kind))
      | _ => decodeColumns kind row rest
    else decodeColumns kind row rest

def decodeRow (kind : Kind) (row : Row) : Except Fault Row := kind.decodeColumns row kind.columns

end Kind

end Dossier
