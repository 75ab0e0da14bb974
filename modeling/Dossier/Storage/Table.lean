import Dossier.Event.Name
import Dossier.Storage.Expression

/-!
Tables of the store: for each kind of record its columns, with what each of them must hold and what it
holds when a new row says nothing.
-/

namespace Dossier

/-- What a column holds in a new row that gives it no value. -/
inductive Default where
  | nothing
  | identity
  | now
  | emptyObject
  deriving DecidableEq, Repr, Inhabited

structure ColumnRule where
  column : Column
  affinity : Affinity
  required : Bool
  unique : Bool
  default : Default
  deriving Repr, Inhabited

namespace Kind

/-- Whether names of this kind are required and belong to one record only. -/
def hasUniqueNames (kind : Kind) : Bool := kind == .type || kind == .lib

def rule (kind : Kind) (column : Column) : ColumnRule :=
  if column.name = identityName then ⟨column, .text, true, true, .identity⟩
  else match column.type with
    | .timestamp => ⟨column, .text, true, false, .now⟩
    | .json => ⟨column, .text, true, false, .emptyObject⟩
    | .integer => ⟨column, .numeric, column.name == "version", false, .nothing⟩
    | .text =>
      let named := column.name == "name" && kind.hasUniqueNames
      ⟨column, .text, named, named, .nothing⟩

def rules (kind : Kind) : List ColumnRule := kind.columns.map kind.rule

/-- The affinity of a column; unknown columns have none. -/
def affinity (kind : Kind) (name : String) : Affinity :=
  ((kind.rules.find? (·.column.name == name)).map (·.affinity)).getD .none

end Kind

/-! ### Definitions as text -/

namespace Definition

/-- The default of identities: a random UUID. -/
def identityText : String :=
  "(lower(hex(randomblob(4)) || '-' || hex(randomblob(2)) || '-4' || substr(hex(randomblob(2)), 2) || '-' || " ++
    "substr('89ab', 1 + (abs(random()) % 4), 1) || substr(hex(randomblob(2)), 2) || '-' || hex(randomblob(6))))"

def nowText : String := "(strftime('%Y-%m-%dT%H:%M:%fZ', 'now'))"

def columnText (kind : Kind) (column : Column) : String :=
  let name := column.name
  if name = identityName then name ++ " text not null primary key default " ++ identityText
  else match column.type with
    | .timestamp => name ++ " text not null default " ++ nowText
    | .json => name ++ " text not null default '\x7b\x7d' check (json_valid(" ++ name ++ "))"
    | .integer => if name = "version" then name ++ " integer not null" else name ++ " integer null"
    | .text =>
      if name = "name" && kind.hasUniqueNames then name ++ " text not null unique"
      else "\"" ++ name ++ "\" text null"

def tableText (kind : Kind) : String :=
  "CREATE TABLE \"" ++ kind.table ++ "\" ( " ++
    String.intercalate ", " (kind.columns.map (columnText kind)) ++ " )"

/-- The trigger that keeps the time of the last change. -/
def touchText (kind : Kind) : String :=
  "CREATE TRIGGER " ++ kind.table ++ "_touch after update on \"" ++ kind.table ++
    "\" for each row when new.modified = old.modified begin update \"" ++ kind.table ++
    "\" set modified = " ++ nowText ++ " where id = new.id; end"

/-- The word for an action in triggers, and the row that it is about. -/
def actionWords : Action → String × String
  | .insert => ("insert", "new")
  | .update => ("update", "new")
  | .delete => ("delete", "old")

/-- The trigger that queues announcements of an action. -/
def announceText (kind : Kind) (action : Action) : String :=
  let (word, row) := actionWords action
  let condition := if action = .update then "when new.modified is old.modified " else ""
  let payload :=
    "'\"" ++ kind.table ++ "\"," ++ String.singleton action.code ++ ",\"id\"=''' || replace(" ++ row ++
      ".id, '''', '''''') || ''''"
  let typed :=
    if kind.isReserved "type" then
      "insert into tcn_queue (channel, payload) select 'tcn' || lower(" ++ row ++ ".\"type\"), " ++ payload ++
        " where " ++ row ++ ".\"type\" is not null; "
    else ""
  "CREATE TRIGGER " ++ kind.table ++ "_tcn_" ++ word ++ " after " ++ word ++ " on \"" ++ kind.table ++
    "\" for each row " ++ condition ++ "begin insert into tcn_queue (channel, payload) values ('tcn', " ++
    payload ++ "); " ++ typed ++ "end"

/-- A table or trigger of the store. -/
structure Item where
  isTrigger : Bool
  name : String
  table : String
  sql : String
  deriving Repr, Inhabited

def tables : List Item :=
  [⟨false, "tcn_queue", "tcn_queue", "CREATE TABLE tcn_queue ( seq integer primary key autoincrement, " ++
    "channel text not null, payload text not null )"⟩,
   ⟨false, "sqlite_sequence", "sqlite_sequence", "CREATE TABLE sqlite_sequence(name,seq)"⟩] ++
  Kind.all.map fun kind => ⟨false, kind.table, kind.table, tableText kind⟩

def triggers (kind : Kind) : List Item :=
  (if kind.isReserved "modified" then [⟨true, kind.table ++ "_touch", kind.table, touchText kind⟩] else []) ++
  (if EventName.announced.contains kind then
    Action.all.map fun action =>
      ⟨true, kind.table ++ "_tcn_" ++ (actionWords action).1, kind.table, announceText kind action⟩
    else [])

def inOrder (items : List Item) : List Item := items.mergeSort fun a b => decide (a.name ≤ b.name)

/-- Everything the store defines: tables, then triggers, each in the order of names. -/
def items : List Item := inOrder tables ++ inOrder (Kind.all.flatMap triggers)

end Definition

end Dossier
