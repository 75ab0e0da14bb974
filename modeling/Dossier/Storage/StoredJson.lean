import Dossier.Json.Text
import Dossier.Storage.Numeric

/-!
JSON values as the store reads them from texts: everything but containers keeps its spelling, so that a
part of a text is a text of the same numbers and strings, and its value as SQL sees it.
-/

namespace Dossier

/-- A string in quotes, as it is spelled, and what it says. -/
structure Spelled where
  text : String
  value : String
  deriving DecidableEq, Repr, Inhabited

inductive StoredJson where
  /-- A value without parts. A number may be too large to have a value. -/
  | atom (text : String) (value : Option Scalar)
  | array (items : List StoredJson)
  /-- The members in the order of the text; a name may come more than once. -/
  | object (members : List (Spelled × StoredJson))
  deriving Repr, Inhabited

namespace StoredJson

mutual

/-- The text without blanks. -/
def text : StoredJson → String
  | .atom text _ => text
  | .array items => "[" ++ String.intercalate "," (texts items) ++ "]"
  | .object members => "\x7b" ++ String.intercalate "," (memberTexts members) ++ "\x7d"

def texts : List StoredJson → List String
  | [] => []
  | item :: rest => text item :: texts rest

def memberTexts : List (Spelled × StoredJson) → List String
  | [] => []
  | (name, value) :: rest => (name.text ++ ":" ++ text value) :: memberTexts rest

end

/-- The value as SQL sees it; containers are their texts. -/
def value? : StoredJson → Option Scalar
  | .atom _ value => value
  | container => some (.text container.text)

/-! ### Parts -/

/-- A step of a path: the member of an object, or the item of an array. -/
inductive PathStep where
  | member (name : String)
  | item (index : Nat)
  deriving DecidableEq, Repr, Inhabited

/-- The steps of a path such as `$."a"[0]`, after its first character. Indices have 32 bits. -/
def pathSteps : Nat → List Char → Option (List PathStep)
  | _, [] => some []
  | fuel + 1, '.' :: '"' :: rest =>
    let name := rest.takeWhile (· != '"')
    match rest.dropWhile (· != '"') with
    | '"' :: rest => (pathSteps fuel rest).map (.member (String.ofList name) :: ·)
    | _ => none
  | fuel + 1, '[' :: rest =>
    let digits := rest.takeWhile Text.isDigit
    match digits, rest.dropWhile Text.isDigit with
    | _ :: _, ']' :: rest => (pathSteps fuel rest).map (.item (Text.digitsValue digits % (1 <<< 32)) :: ·)
    | _, _ => none
  | _, _ => none

def path? (path : String) : Option (List PathStep) :=
  match path.toList with
  | '$' :: rest => pathSteps rest.length rest
  | _ => none

/-- The part at the end of a path. Of members with one name the first is meant. -/
def part? : StoredJson → List PathStep → Option StoredJson
  | whole, [] => some whole
  | .object members, .member name :: rest =>
    (members.find? (·.1.value == name)).bind fun found => part? found.2 rest
  | .array items, .item index :: rest => items[index]?.bind fun found => part? found rest
  | _, _ :: _ => none

end StoredJson

end Dossier
