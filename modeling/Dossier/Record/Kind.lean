import Dossier.Json.Basic

/-!
The kinds of record that the store keeps. Each kind is a table of reserved columns and one payload
column, which holds every other attribute of a record as one JSON object.
-/

namespace Dossier

inductive ColumnType where
  | text
  | integer
  | timestamp
  | json
  deriving DecidableEq, Repr, Inhabited

structure Column where
  name : String
  type : ColumnType
  deriving DecidableEq, Repr, Inhabited

inductive Kind where
  | document
  | type
  | attachment
  | lib
  | method
  | view
  | dbversion
  deriving DecidableEq, Repr, Inhabited

/-- The column and attribute that identifies a record. -/
def identityName : String := "id"

namespace Column

def identity : Column := ⟨identityName, .text⟩

def created : Column := ⟨"created", .timestamp⟩

def modified : Column := ⟨"modified", .timestamp⟩

def label : Column := ⟨"name", .text⟩

def typeName : Column := ⟨"type", .text⟩

def code : Column := ⟨"code", .text⟩

end Column

namespace Kind

def all : List Kind := [.document, .type, .attachment, .lib, .method, .view, .dbversion]

def table : Kind → String
  | .document => "document"
  | .type => "type"
  | .attachment => "attachment"
  | .lib => "lib"
  | .method => "method"
  | .view => "view"
  | .dbversion => "dbversion"

def reserved : Kind → List Column
  | .document => [.identity, .created, .modified, .typeName]
  | .type => [.identity, .created, .modified, .label, ⟨"schema", .json⟩]
  | .attachment =>
    [.identity, .created, .modified, ⟨"document", .text⟩, .label, ⟨"mimetype", .text⟩, ⟨"size", .integer⟩]
  | .lib => [.identity, .created, .modified, .label, .code]
  | .method => [.identity, .created, .modified, .typeName, .label, .code]
  | .view => [.identity, .created, .modified, .typeName, .label, ⟨"query", .json⟩]
  | .dbversion => [.identity, .created, ⟨"version", .integer⟩]

/-- The name of the payload column. -/
def payload : Kind → String
  | .document => "content"
  | _ => "meta"

/-- The reserved columns, then the payload column. -/
def columns (kind : Kind) : List Column := kind.reserved ++ [⟨kind.payload, .json⟩]

def ofTable? (table : String) : Option Kind := all.find? (·.table == table)

def column? (kind : Kind) (name : String) : Option Column := kind.reserved.find? (·.name == name)

def isReserved (kind : Kind) (name : String) : Bool := (kind.column? name).isSome

/-- Whether a caller may write the column; identity and timestamps belong to the store. -/
def writable (name : String) : Bool := name != identityName && name != "created" && name != "modified"

end Kind

end Dossier
