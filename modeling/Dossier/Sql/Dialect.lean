/-!
The dialects of SQL that statements are written in.
-/

namespace Dossier.Sql

inductive Dialect where
  | postgres
  | sqlite
  deriving DecidableEq, Repr, Inhabited

end Dossier.Sql
