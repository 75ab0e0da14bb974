import Dossier.Search.Result
import Dossier.Session.Work
import Dossier.Record.Identity
import Dossier.Session.Write

/-!
Operations on records. Each of them leaves its result in the queue when it succeeds, and records that go
by are remembered by identity.
-/

namespace Dossier.Session

def asObject (value : Json) : Except Fault Members :=
  match value with
  | .object members => .ok members
  | other => .error (.json (.notAnObject other))

/-- The record of the first row, if there is one. -/
def firstRecord (kind : Kind) : List Row → Except Fault (Option Json)
  | [] => .ok none
  | row :: _ => (kind.decodeRow row).map fun decoded => some (.object (kind.flatten decoded))

/-- Runs raw SQL; the rows are one result. -/
def execute (sql : String) (params : List Json) : Work (List Row) := do
  let rows ← query .execute sql params
  push (.array (rows.map .object))
  return rows

/-- The records of one statement, in order; bare counts are not remembered. -/
def collect (statement : Statement) (rows : List Row) : Work (List Json) :=
  rows.mapM fun row => do
    let record ← attempt (statement.decode row)
    if !statement.count then remember record
    return record

def select (target : Target) (filter : Json) (traits : Traits) : Work (List Json) := do
  let query' ← attempt ((Query.ofTraits? target filter traits).mapError .compile)
  let statement ← attempt query'.statement?
  let rows ← query .search statement.sql statement.params
  collect statement rows

def targetOf (s : Session) (kind : Kind) (schema : Schema) : Target := ⟨kind, schema, s.settings.dialect⟩

/-- The traits of a search for one record. -/
def single : Traits := { Traits.default with limit := .rows 1 }

/-- The first record whose column has the given text. -/
def lookup (kind : Kind) (key text : String) : Work (Option Json) := do
  let target := (← get).targetOf kind Schema.empty
  return (← select target (.object [(key, .string text)]) single).head?

def find (kind : Kind) (id : String) : Work (Option Json) := lookup kind "$id" id

/-! ### Types -/

/-- The record of a type, looked up once for each name. -/
def lookupType (name : String) : Work (Option Json) := do
  match (← get).types.lookup name with
  | some found => return found
  | none =>
    let found ← lookup .type "$name" name
    change fun s => { s with types := (name, found) :: s.types }
    return found

def typeSchema (name : String) : Work Schema := do
  let record ← lookupType name
  return ((record.bind (·.get? "schema")).map Schema.mk).getD Schema.empty

def getType (name : String) : Work (Option Json) := do
  let found ← lookupType name
  push (found.getD .null)
  return found

/-! ### Writing -/

def create (kind : Kind) (record : Json) : Work Json := do
  let record ← attempt (asObject record)
  let (sql, params) := insertion (← get).settings.dialect kind (kind.partition record)
  let rows ← query .create sql params
  let created := (← attempt (firstRecord kind rows)).getD .null
  remember created
  push created
  return created

/-- A new identity. -/
def freshIdentity : Work String := do
  let s ← get
  change fun s => { s with identities := s.identities + 1 }
  return Identity.fresh .session s.identities

/-- Creates a document of a type; its identity is new unless the content brings one. -/
def createDocument (typeName : String) (content : Json) : Work Json := do
  let record ← attempt (asObject content)
  if Members.contains record identityName then
    create .document (.object (Members.insert "type" (.string typeName) record))
  else
    let identified := Members.insert identityName (.string (← freshIdentity)) record
    create .document (.object (Members.insert "type" (.string typeName) identified))

def createType (name : String) (schema metadata : Json) : Work Json := do
  let record ← match metadata with
    | .null => pure []
    | other => attempt (asObject other)
  let record := Members.insert "schema" schema (Members.insert "name" (.string name) record)
  let created ← create .type (.object record)
  change fun s => { s with types := (name, some created) :: s.types }
  return created

/-- The current record overlaid with changes. -/
def overlay (current changes : Members) : Members :=
  changes.foldl (fun record (name, value) => Members.insert name value record) current

/-- Writes the columns that the changes make different, and gives the record as stored. -/
def writeChanges (kind : Kind) (id : String) (before after : Row) : Work Json := do
  match changedColumns kind before after with
  | [] =>
    let current := Json.object (kind.flatten before)
    push current
    return current
  | assignments =>
    let (sql, params) := modification (← get).settings.dialect kind assignments id
    let rows ← query .update sql params
    let updated := (← attempt (firstRecord kind rows)).getD .null
    remember updated
    push updated
    return updated

/-- Overlays the stored record with changes, which name it by its identity. -/
def update (kind : Kind) (record : Json) : Work Json := do
  let changes ← attempt (asObject record)
  match (Members.get? changes identityName).bind Json.string? with
  | none => throw (.compile .updateWithoutIdentity)
  | some id =>
    match ← find kind id with
    | none => throw (.notFound (.record kind id))
    | some found =>
      let current ← attempt (asObject found)
      writeChanges kind id (kind.partition current) (kind.partition (overlay current changes))

/-- Deletes a record, and says whether there was one. -/
def delete (kind : Kind) (id : String) : Work Bool := do
  let (sql, params) := removal kind id
  let rows ← query .delete sql params
  change fun s => { s with entities := Members.erase id s.entities }
  push (.bool (!rows.isEmpty))
  return !rows.isEmpty

/-! ### Searching -/

/-- The record with an identity, or nothing. -/
def read (kind : Kind) (id : String) : Work (Option Json) := do
  let found ← find kind id
  push (found.getD .null)
  return found

/-- The type that a filter asks for on its surface: in its members, or in the first item that has any. -/
def typeFilter : Json → Option String
  | .object members => (Members.get? members "$type").bind Json.string?
  | .array items => items.findSome? fun item => (item.get? "$type").bind Json.string?
  | _ => none

/-- The result of a search: the records, or the bare count. -/
def searchResult (records : List Json) (count : Bool) : Json :=
  if count then records.head?.getD (.nat 0) else .array records

def selectResult (kind : Kind) (schema : Schema) (filter : Json) (traits : Traits) : Work Json := do
  let target := (← get).targetOf kind schema
  let result := searchResult (← select target filter traits) traits.count
  push result
  return result

/-- Documents that ask for a type on the surface of their filter are cast by its schema. -/
def search (kind : Kind) (filter : Json) (traits : Traits) : Work Json := do
  let schema ← match kind, typeFilter filter with
    | .document, some typeName => typeSchema typeName
    | _, _ => pure Schema.empty
  selectResult kind schema filter traits

/-- The filter together with the demand for a type. -/
def typedFilter (typeName : String) (filter : Json) : Json :=
  let typed := Json.object [("$type", .string typeName)]
  match filter with
  | .null => typed
  | other => .array [typed, other]

def searchDocuments (typeName : String) (filter : Json) (traits : Traits) : Work Json := do
  let schema ← typeSchema typeName
  selectResult .document schema (typedFilter typeName filter) traits

def count (kind : Kind) (filter : Json) : Work Nat := do
  return (← search kind filter Traits.counting).natural?.getD 0

end Dossier.Session
