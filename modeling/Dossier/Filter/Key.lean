import Dossier.Fault
import Dossier.Text.Ascii
import Dossier.Text.Pieces

/-!
Keys of filters, orderings and fields. `$name` addresses a column, `$name:ms` a timestamp column in
milliseconds, and `a.b.c` an attribute inside the payload.
-/

namespace Dossier

inductive Key where
  | column (column : Column) (epoch : Bool)
  | path (segments : List String)
  deriving DecidableEq, Repr, Inhabited

namespace Key

/-- A key segment has at least one character. -/
def isSegment (cs : List Char) : Bool := !cs.isEmpty && cs.all Text.isSegmentChar

/-- The segments of a dotted path, if each of them is well formed. -/
def segments? (text : String) : Option (List String) :=
  let pieces := Text.splitAt '.' text.toList
  if pieces.all isSegment then some (pieces.map String.ofList) else none

/-- The name and the epoch flag of a column key, without its `$`. -/
def columnName (cs : List Char) : String × Bool :=
  match Text.beforeEnd [':', 'm', 's'] cs with
  | some name => (String.ofList name, true)
  | none => (String.ofList cs, false)

def ofText? (kind : Kind) (text : String) : Except CompileFault Key :=
  match text.toList with
  | '$' :: rest =>
    let (name, epoch) := columnName rest
    match kind.columns.find? (·.name == name) with
    | none => .error (.notAColumn text kind.table)
    | some found =>
      if epoch && found.type != .timestamp then .error (.notATimestamp text)
      else .ok (.column found epoch)
  | _ =>
    match segments? text with
    | some segments => .ok (.path segments)
    | none => .error (.invalidKey text)

/-- The attribute's name on a flat record. -/
def name : Key → String
  | .column c _ => c.name
  | .path segments => String.intercalate "." segments

end Key

end Dossier
