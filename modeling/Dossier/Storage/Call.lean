import Dossier.Json.Basic

/-!
Calls to storage.
-/

namespace Dossier

inductive CallKind where
  | begin
  | commit
  | rollback
  | disconnect
  | listen
  | unlisten
  | query
  deriving DecidableEq, Repr, Inhabited

/-- A call to storage. -/
inductive Call where
  | begin
  | commit
  | rollback
  | disconnect
  | listen (channel : String)
  | unlisten (channel : String)
  | query (sql : String) (params : List Json)
  deriving Repr, Inhabited

namespace Call

def kind : Call → CallKind
  | .begin => .begin
  | .commit => .commit
  | .rollback => .rollback
  | .disconnect => .disconnect
  | .listen _ => .listen
  | .unlisten _ => .unlisten
  | .query _ _ => .query

/-- Whether a pending delay is spent on calls of this kind. -/
def isSlow (call : Call) : Bool :=
  match call.kind with
  | .query | .commit | .rollback => true
  | _ => false

end Call

end Dossier
