import Dossier.Event.Identifier

/-!
Changes of rows, as they are announced on a channel: `"table",A,"column"='value'`, where `A` is the letter
of the action and a quote in the value is written twice.
-/

namespace Dossier

/-- A text announced on a channel. -/
structure Notification where
  channel : String
  payload : String
  deriving DecidableEq, Repr, Inhabited

structure RowChange where
  table : String
  action : Action
  column : String
  value : String
  deriving DecidableEq, Repr, Inhabited

namespace RowChange

/-- A name in double quotes, which holds none and is not empty, and what follows it. -/
def readName : List Char → Option (String × List Char)
  | '"' :: rest => do
    let (name, rest) ← Text.cutAt '"' rest
    if name.isEmpty then none else some (String.ofList name, rest)
  | _ => none

/-- The value before the quote that ends the text; every quote inside is doubled. -/
def readValue : List Char → Option (List Char)
  | [] => none
  | ['\''] => some []
  | '\'' :: '\'' :: rest => (readValue rest).map ('\'' :: ·)
  | c :: rest => if c = '\'' then none else (readValue rest).map (c :: ·)

def readAction : List Char → Option (Action × List Char)
  | ',' :: c :: ',' :: rest => (Action.all.find? (·.code == c)).map (·, rest)
  | _ => none

def ofChars? (cs : List Char) : Option RowChange := do
  let (table, rest) ← readName cs
  let (action, rest) ← readAction rest
  let (column, rest) ← readName rest
  let rest ← Text.afterStart ['=', '\''] rest
  let value ← readValue rest
  return ⟨table, action, column, String.ofList value⟩

/-- Reads an announcement; blanks around it are ignored. -/
def ofPayload? (payload : String) : Except EventFault RowChange :=
  match ofChars? (Text.trimChars payload.toList) with
  | some change => .ok change
  | none => .error (.badPayload payload)

def payload (change : RowChange) : String :=
  "\"" ++ change.table ++ "\"," ++ String.singleton change.action.code ++ ",\"" ++ change.column ++ "\"='" ++
    String.ofList (Text.replaceChar '\'' ['\'', '\''] change.value.toList) ++ "'"

/-- The name of the event that the change raises, if its table has events. -/
def eventName? (change : RowChange) : Option String := EventName.ofTable? change.table change.action

end RowChange

end Dossier
