/-!
Phases of a session's transaction, and the operations that a phase may refuse.
-/

namespace Dossier

/-- Where the transaction of a session stands. Every phase but the first is final. -/
inductive Phase where
  | active
  | committed
  | rolledBack
  | disconnected
  deriving DecidableEq, Repr, Inhabited

namespace Phase

def name : Phase → String
  | .active => "open"
  | .committed => "commit"
  | .rolledBack => "rollback"
  | .disconnected => "disconnect"

def isFinal (phase : Phase) : Bool := phase != .active

end Phase

/-- The operations of a session that talk to storage. -/
inductive Operation where
  | execute
  | create
  | search
  | update
  | delete
  | subscribe
  | unsubscribe
  | commit
  | rollback
  | disconnect
  deriving DecidableEq, Repr, Inhabited

def Operation.name : Operation → String
  | .execute => "execute"
  | .create => "create"
  | .search => "search"
  | .update => "update"
  | .delete => "delete"
  | .subscribe => "subscribe"
  | .unsubscribe => "unsubscribe"
  | .commit => "commit"
  | .rollback => "rollback"
  | .disconnect => "disconnect"

end Dossier
