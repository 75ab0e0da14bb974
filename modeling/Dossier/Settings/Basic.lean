import Dossier.Sql.Dialect

/-!
Settings of a session.
-/

namespace Dossier

structure Settings where
  /-- Milliseconds without activity after which an open transaction is rolled back. -/
  timeout : Nat
  /-- Whether samples of the calls are kept. -/
  timing : Bool
  dialect : Sql.Dialect
  /-- Where the bundled store keeps its data. -/
  database : String
  logFilter : String
  deriving DecidableEq, Repr, Inhabited

def Settings.default : Settings := ⟨30000, false, .postgres, ":memory:", "info"⟩

end Dossier
