import Dossier.Event.Change
import Dossier.Record.Identity
import Dossier.Record.Payload
import Dossier.Storage.CommandReader
import Dossier.Storage.Retrieval
import Dossier.Storage.Table

/-!
The data of the store and what commands do to it. Every change of a row on a table with events queues
announcements, one on the general channel and one on the channel of the row's type if it has one.
-/

namespace Dossier

open Expression (Record)

/-- What a transaction can take back. -/
structure Data where
  tables : List (String × List Record)
  queue : List Notification
  deriving Repr, Inhabited

/-- The data with the clock and the count of identities that its defaults draw on. The clock shows
milliseconds since 1970 and moves on with every write. -/
structure Database where
  data : Data
  clock : Nat
  identities : Nat
  evaluator : Option Evaluator
  deriving Repr, Inhabited

/-! ### Timestamps -/

namespace Timestamp

/-- The year, month and day after so many days since 1970-01-01. -/
def civil (days : Nat) : Nat × Nat × Nat :=
  let z := days + 719468
  let era := z / 146097
  let doe := z % 146097
  let yoe := (doe - doe / 1460 + doe / 36524 - doe / 146096) / 365
  let doy := doe - (365 * yoe + yoe / 4 - yoe / 100)
  let mp := (5 * doy + 2) / 153
  let month := if mp < 10 then mp + 3 else mp - 9
  (yoe + era * 400 + (if month ≤ 2 then 1 else 0), month, doy - (153 * mp + 2) / 5 + 1)

def text (clock : Nat) : String :=
  let (year, month, day) := civil (clock / 86400000)
  toString year ++ "-" ++ Text.padded 2 month ++ "-" ++ Text.padded 2 day ++ "T" ++
    Text.padded 2 (clock / 3600000 % 24) ++ ":" ++ Text.padded 2 (clock / 60000 % 60) ++ ":" ++
    Text.padded 2 (clock / 1000 % 60) ++ "." ++ Text.padded 3 (clock % 1000) ++ "Z"

end Timestamp

namespace Database

/-- The name of the table of queued announcements. -/
def queueTable : String := "tcn_queue"

def rows (db : Database) (table : String) : List Record := (db.data.tables.lookup table).getD []

def setRows (db : Database) (table : String) (rows : List Record) : Database :=
  let tables := db.data.tables.map fun (name, old) => if name == table then (name, rows) else (name, old)
  { db with data := { db.data with tables } }

/-- The columns of a table, if there is such a table. -/
def columns? (table : String) : Option (List ColumnShape) :=
  if table = queueTable then
    some [⟨"seq", .numeric, true, true⟩, ⟨"channel", .text, true, false⟩, ⟨"payload", .text, true, false⟩]
  else (Kind.ofTable? table).map fun kind =>
    kind.rules.map fun rule => ⟨rule.column.name, rule.affinity, rule.required, rule.unique⟩

def surroundings (db : Database) (params : List Scalar) (columns : List ColumnShape) : Surroundings :=
  ⟨params, columns, db.evaluator⟩

/-! ### Announcements -/

def textOf (record : Record) (name : String) : Option String := (record.lookup name).bind Scalar.text?

/-- Queues the announcements of a change of a row. -/
def announce (db : Database) (kind : Kind) (action : Action) (record : Record) : Database :=
  if EventName.announced.contains kind then
    let change : RowChange := ⟨kind.table, action, identityName, (textOf record identityName).getD ""⟩
    let general : Notification := ⟨EventId.generalChannel, change.payload⟩
    let typed := (if kind.isReserved "type" then textOf record "type" else none).map fun name =>
      (⟨EventId.generalChannel ++ Text.asciiLower name, change.payload⟩ : Notification)
    { db with data := { db.data with queue := db.data.queue ++ general :: typed.toList } }
  else db

/-! ### Writing -/

/-- Lets the time of a write pass. -/
def tick (db : Database) : Database := { db with clock := db.clock + 2 }

def defaultValue (db : Database) : Default → Scalar
  | .nothing => .null
  | .identity => .text (Identity.fresh .store db.identities)
  | .now => .text (Timestamp.text db.clock)
  | .emptyObject => .text "\x7b\x7d"

def isValidJson (value : Scalar) : Bool := (value.text?.map StoredJson.isStrict).getD false

/-- Whether a record holds what its columns must, next to the other records of its table. -/
def isAllowed (kind : Kind) (others : List Record) (record : Record) : Bool :=
  kind.rules.all fun rule =>
    let value := (record.lookup rule.column.name).getD .null
    (!rule.required || value != .null) &&
      (!rule.unique || value = .null || others.all fun other => other.lookup rule.column.name != some value) &&
      (rule.column.type != .json || isValidJson value)

/-- A new record: the given values as their columns store them, and defaults elsewhere. -/
def newRecord (db : Database) (kind : Kind) (given : Record) : Record :=
  kind.rules.map fun rule =>
    (rule.column.name, match given.lookup rule.column.name with
      | some value => value.store rule.affinity
      | none => db.defaultValue rule.default)

def insertRow (db : Database) (kind : Kind) (given : Record) : Except ExecutionFault (Database × Record) :=
  let record := db.newRecord kind given
  let others := db.rows kind.table
  if isAllowed kind others record then
    let db := (db.setRows kind.table (others ++ [record])).announce kind .insert record
    .ok ({ db with identities := db.identities + 1 }.tick, record)
  else .error .refused

def overwrite (kind : Kind) (settings : Record) (record : Record) : Record :=
  record.map fun (name, old) => (name, match settings.lookup name with
    | some value => value.store (kind.affinity name)
    | none => old)

/-- Changes the record at a position; the time of the change is kept where there is a column for it, and
the changed record is given as it was before that. -/
def updateRow (kind : Kind) (position : Nat) (settings : Record) (db : Database) :
    Except ExecutionFault (Database × Record) :=
  let all := db.rows kind.table
  match all[position]? with
  | none => .error .refused
  | some old =>
    let record := overwrite kind settings old
    if isAllowed kind (all.eraseIdx position) record then
      let touched := if kind.isReserved "modified" then
        overwrite kind [("modified", .text (Timestamp.text db.clock))] record else record
      .ok (((db.setRows kind.table (all.set position touched)).announce kind .update record).tick, record)
    else .error .refused

/-! ### Results -/

def returnedRow (returning : Returning) (record : Record) : List Row :=
  match returning with
  | .nothing => []
  | .column name => [Retrieval.resultRow (record.filter (·.1 == name))]
  | .all => [Retrieval.resultRow record]

/-- The queue as a table. -/
def queueRecords (db : Database) : List Record :=
  db.data.queue.zipIdx.map fun (notification, index) =>
    [("seq", .integer (index + 1)), ("channel", .text notification.channel), ("payload", .text notification.payload)]

/-- The records of a retrieval's table; without a table there is one empty record. -/
def sourceRecords (db : Database) : Option String → List Record
  | none => [[]]
  | some table => if table = queueTable then db.queueRecords else db.rows table

/-! ### Commands -/

/-- Every expression of a command. -/
def expressions : Command → List Expression
  | .select r => r.expressions
  | .insert _ _ values _ => values
  | .update _ settings condition _ => settings.map Prod.snd ++ condition.toList
  | .delete _ condition _ => condition.toList

def tableOf : Command → Option String
  | .select r => r.table
  | .insert table _ _ _ | .update table _ _ _ | .delete table _ _ => some table

/-- The columns that a command names outside of expressions. -/
def namedColumns : Command → List String
  | .select _ => []
  | .insert _ columns _ returning => columns ++ returningColumn returning
  | .update _ settings _ returning => settings.map Prod.fst ++ returningColumn returning
  | .delete _ _ returning => returningColumn returning
where
  returningColumn : Returning → List String
    | .column name => [name]
    | _ => []

/-- The records that meet a condition, with their positions. -/
def selected (around : Surroundings) (condition : Option Expression) (all : List Record) :
    Except ExecutionFault (List (Record × Nat)) :=
  all.zipIdx.filterM fun (record, _) => Expression.holdsAll around record condition.toList

/-- Queues an announcement given as a row. -/
def enqueue (db : Database) (given : Record) : Except ExecutionFault Database :=
  match (given.lookup "channel").bind Scalar.text?, (given.lookup "payload").bind Scalar.text? with
  | some channel, some payload =>
    .ok { db with data := { db.data with queue := db.data.queue ++ [⟨channel, payload⟩] } }
  | _, _ => .error .refused

def runInsert (db : Database) (around : Surroundings) (table : String) (columns : List String)
    (values : List Expression) (returning : Returning) : Except ExecutionFault (Database × List Row) := do
  let given := columns.zip (← Expression.values around [] values)
  if table = queueTable then return (← db.enqueue given, [])
  else match Kind.ofTable? table with
    | none => .error .refused
    | some kind => do
      let (db, record) ← db.insertRow kind given
      return (db, returnedRow returning record)

def runUpdate (db : Database) (around : Surroundings) (kind : Kind) (settings : List (String × Expression))
    (condition : Option Expression) (returning : Returning) : Except ExecutionFault (Database × List Row) := do
  let found ← selected around condition (db.rows kind.table)
  found.foldlM (fun (db, rows) (record, position) => do
    let given := (settings.map Prod.fst).zip (← Expression.values around record (settings.map Prod.snd))
    let (db, record) ← updateRow kind position given db
    return (db, rows ++ returnedRow returning record)) (db, [])

def runDelete (db : Database) (around : Surroundings) (kind : Kind) (condition : Option Expression)
    (returning : Returning) : Except ExecutionFault (Database × List Row) := do
  let all := db.rows kind.table
  let found ← selected around condition all
  let kept := (all.zipIdx.filter fun (_, position) => !found.any (·.2 == position)).map Prod.fst
  let db := found.foldl (fun db (record, _) => announce db kind .delete record) (db.setRows kind.table kept)
  return (db.tick, found.flatMap fun (record, _) => returnedRow returning record)

def runCommand (db : Database) (around : Surroundings) (command : Command) :
    Except ExecutionFault (Database × List Row) :=
  match command with
  | .select r => do return (db, ← r.rows around (db.sourceRecords r.table))
  | .insert table columns values returning => db.runInsert around table columns values returning
  | .update table settings condition returning =>
    match Kind.ofTable? table with
    | some kind => db.runUpdate around kind settings condition returning
    | none => .error .refused
  | .delete table condition returning =>
    match Kind.ofTable? table with
    | some kind => db.runDelete around kind condition returning
    | none => .error .refused

/-- The most expressions within one another. -/
def deepest : Nat := 1000

/-- The most results, keys of groups and keys of an order. -/
def widest : Nat := 2000

/-- Whether the lists of a command are not too long. -/
def isNarrow : Command → Bool
  | .select r => r.columns.length ≤ widest && r.groups.length ≤ widest && r.order.length ≤ widest
  | _ => true

/-- Whether a command can be prepared: its table, columns and functions exist, it is not too deep or wide, and
it takes as many parameters as it is given. -/
def isPrepared (around : Surroundings) (command : Command) : Bool :=
  Expression.areKnown around (expressions command) && Expression.depths (expressions command) ≤ deepest &&
    isNarrow command && Expression.lastParameters (expressions command) == around.params.length &&
    (namedColumns command).all fun name => (around.column? name).isSome

/-- Runs a command given as text. A refused command changes nothing. -/
def query (db : Database) (sql : String) (params : List Json) : Except ExecutionFault (Database × List Row) :=
  match Command.ofText? sql with
  | none => .error .refused
  | some command =>
    match (tableOf command).map columns? with
    | some none => .error .refused
    | found =>
      let around := db.surroundings (params.map Scalar.ofJson) ((found.bind id).getD [])
      if isPrepared around command then db.runCommand around command else .error .refused

/-- Adds a row for a version of the schema. -/
def recordVersion (db : Database) (version : Int) : Except ExecutionFault Database :=
  (db.insertRow .dbversion [("version", .integer version)]).map Prod.fst

/-- The highest recorded version. -/
def version (db : Database) : Int :=
  (db.rows Kind.dbversion.table).foldl (fun top record => match record.lookup "version" with
    | some (.integer v) => max top v
    | _ => top) 0

/-- The start of the store's clock: 2026-05-17T06:48:03.317Z. -/
def firstInstant : Nat := 1779000483317

/-- A store of version 1 without records. -/
def fresh (evaluator : Option Evaluator) : Database :=
  let bare : Database :=
    ⟨⟨Kind.all.map fun kind => (kind.table, []), []⟩, firstInstant, 0, evaluator⟩
  match bare.recordVersion 1 with
  | .ok db => db
  | .error _ => bare

end Database

end Dossier
