import Dossier.Record.Kind

/-!
Names of change events: for each kind of record that announces changes, and each action on a row, one
name such as `documentCreated`.
-/

namespace Dossier

inductive Action where
  | insert
  | update
  | delete
  deriving DecidableEq, Repr, Inhabited

namespace Action

def all : List Action := [.insert, .update, .delete]

def code : Action → Char
  | .insert => 'I'
  | .update => 'U'
  | .delete => 'D'

def ofCode? (code : String) : Option Action := all.find? fun action => code.toList = [action.code]

def ending : Action → String
  | .insert => "Created"
  | .update => "Modified"
  | .delete => "Removed"

end Action

namespace EventName

/-- The kinds whose changes are announced. -/
def announced : List Kind := [.document, .type, .attachment, .lib, .method, .view]

def ofChange (kind : Kind) (action : Action) : String := kind.table ++ action.ending

/-- The name of an action on a table, if the table has events. -/
def ofTable? (table : String) (action : Action) : Option String :=
  (announced.find? (·.table == table)).map (ofChange · action)

/-- The table and the action behind a name. -/
def source? (name : String) : Option (String × Action) :=
  announced.findSome? fun kind =>
    (Action.all.find? fun action => ofChange kind action == name).map (kind.table, ·)

end EventName

end Dossier
