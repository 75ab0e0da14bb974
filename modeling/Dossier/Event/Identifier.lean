import Dossier.Event.Name
import Dossier.Fault
import Dossier.Text.Ascii
import Dossier.Text.Lowercase
import Dossier.Text.Pieces

/-!
Identifiers of events, written `[Type#][id@][event]`. A token that stands alone is an identity when it has
the form of a UUID, else an event when it follows a type or is the name of one, and else a type.
-/

namespace Dossier

structure EventId where
  typeName : Option String
  id : Option String
  event : Option String
  deriving DecidableEq, Repr, Inhabited

namespace EventId

def none : EventId := ⟨.none, .none, .none⟩

/-- Whether the text is five groups of 8, 4, 4, 4 and 12 hexadecimal digits with hyphens between them. -/
def isIdentity (text : String) : Bool :=
  let groups := Text.splitAt '-' text.toList
  groups.map List.length == [8, 4, 4, 4, 12] && groups.all (·.all Text.isHexDigit)

/-- The token without the blanks around it, unless nothing is left. -/
def token? (cs : List Char) : Option String :=
  let trimmed := Text.trimChars cs
  if trimmed.isEmpty then .none else some (String.ofList trimmed)

/-- What a token without `@` names. -/
def ofToken (typeName : Option String) (token : String) : EventId :=
  if isIdentity token then ⟨typeName, some token, .none⟩
  else if typeName.isSome || (EventName.source? token).isSome then ⟨typeName, .none, some token⟩
  else ⟨some token, .none, .none⟩

/-- The parts of an identifier as they are written. -/
def parts (text : String) : EventId :=
  let cs := Text.trimChars text.toList
  let (typeName, rest) := match Text.cutAt '#' cs with
    | some (before, after) => (token? before, after)
    | .none => (.none, cs)
  match Text.cutAt '@' rest with
  | some (id, event) => ⟨typeName, token? id, token? event⟩
  | .none =>
    match token? rest with
    | some token => ofToken typeName token
    | .none => ⟨typeName, .none, .none⟩

/-- Whether a text is a valid identity: segment characters only, at least one. -/
def isValidId (id : String) : Bool := !id.isEmpty && id.toList.all Text.isSegmentChar

/-- The first bad part, if there is one. -/
def badPart (id : EventId) : Option EventFault :=
  match id.typeName.filter (!Text.isName ·) with
  | some name => some (.badTypeName name)
  | .none =>
    match id.id.filter (!isValidId ·) with
    | some identity => some (.badIdentity identity)
    | .none => (id.event.filter (!Text.isName ·)).map .badEventName

/-- Identities of UUID form are kept in lower case. -/
def normalId (id : String) : String := if isIdentity id then Text.asciiLower id else id

def ofText? (text : String) : Except EventFault EventId :=
  let id := parts text
  match id.badPart with
  | some fault => .error fault
  | .none => .ok { id with id := id.id.map normalId }

/-- The identifier with marks after the parts that are there. -/
def text (id : EventId) : String :=
  ((id.typeName.map (· ++ "#")).getD "") ++ ((id.id.map (· ++ "@")).getD "") ++ id.event.getD ""

/-- The channel of identifiers without a type. -/
def generalChannel : String := "tcn"

/-- The channel that announces changes of the identifier's type. -/
def channel (id : EventId) : String :=
  match id.typeName with
  | some name => generalChannel ++ Text.lowercase name
  | .none => generalChannel

/-- Whether a change of the record `identity` under the given event name is wanted. -/
def accepts (id : EventId) (identity event : String) : Bool :=
  (id.id.map fun wanted => Text.equalIgnoringCase wanted identity).getD true &&
    (id.event.map (· == event)).getD true

end EventId

end Dossier
