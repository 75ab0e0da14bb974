import Dossier.Json.Text
import Dossier.Text.Pieces

/-!
Quoted names and literals in SQL text. A quote inside is written twice.
-/

namespace Dossier.Sql

open Text (replaceChar)

def quoteIdentifier (name : String) : String :=
  String.ofList ('"' :: replaceChar '"' ['"', '"'] name.toList ++ ['"'])

def quoteLiteral (text : String) : String :=
  String.ofList ('\'' :: replaceChar '\'' ['\'', '\''] text.toList ++ ['\''])

/-- The literal of a value; containers are quoted JSON text. -/
def literal : Json → String
  | .null => "NULL"
  | .bool true => "TRUE"
  | .bool false => "FALSE"
  | .number n => n.text
  | .string s => quoteLiteral s
  | other => quoteLiteral other.text

end Dossier.Sql
