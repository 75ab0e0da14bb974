import Dossier.Filter.Expression

/-!
Fields of a selection, and where each of them lands on the decoded record. A field is a key or a list of relations to
documents. A relation follows a source property, forward by its key, or inverse as `source{type#property}`; its fields
are keys of documents. The list of relations is sent as one text parameter whose members keep the order of the
description.
-/

namespace Dossier

open Sql (Fragment Predicate Dialect)

/-! ### Relations -/

/-- A selected field of a related document: its name, its place in the payload, and its expression. -/
structure RelatedField where
  name : String
  path : Option String
  query : String
  deriving Repr, Inhabited

structure Inverse where
  typeName : String
  property : String
  deriving DecidableEq, Repr, Inhabited

structure Relation where
  typeName : Option String
  source : String
  inverse : Option Inverse
  fields : List RelatedField
  deriving Repr, Inhabited

namespace Relation

/-- The three parts of `source{type#property}`. -/
def inverse? (text : String) : Option (String × Inverse) := do
  let (source, rest) ← Text.cutAt '\x7b' text.toList
  let inner ← Text.beforeEnd ['\x7d'] rest
  let (typeName, property) ← Text.cutAt '#' inner
  let typeName := String.ofList typeName
  let property := String.ofList property
  if Key.isSegment source && Text.isName typeName && (Key.segments? property).isSome then
    some (String.ofList source, ⟨typeName, property⟩)
  else none

/-- A field of a related document; its expression is written without parameters. -/
def readField (dialect : Dialect) : Json → Except CompileFault RelatedField
  | .string text => do
    let related : Target := ⟨.document, Schema.empty, dialect⟩
    let key ← Key.ofText? .document text
    let path := match key with
      | .column _ _ => none
      | .path _ => some key.name
    return ⟨key.name, path, (related.extraction key true).inline⟩
  | other => .error (.relationFieldNotKey other)

/-- The source property and the inverse it names. A forward source is any key of the kind. -/
def readSource (kind : Kind) (source : String) : Except CompileFault (String × Option Inverse) :=
  match inverse? source with
  | some (property, inverse) => .ok (property, some inverse)
  | none => (Key.ofText? kind source).map fun _ => (source, none)

def ofJson? (target : Target) (relation : Json) : Except CompileFault Relation :=
  match (relation.get? "sourceProperty").bind Json.string? with
  | none => .error (.relationWithoutSource relation)
  | some text => do
    let (source, inverse) ← readSource target.kind text
    let named := (relation.get? "type").bind Json.string?
    let fields := ((relation.get? "fields").bind Json.array?).getD []
    let fields ← fields.mapM (readField target.dialect)
    return ⟨named.or (inverse.map (·.typeName)), source, inverse, fields⟩

/-- A member of a description. -/
def member (name value : String) : String := Json.quoted name ++ ":" ++ value

def optionalMember (name : String) : Option String → List String
  | some text => [member name (Json.quoted text)]
  | none => []

def braces (members : List String) : String := "\x7b" ++ String.intercalate "," members ++ "\x7d"

def brackets (items : List String) : String := "[" ++ String.intercalate "," items ++ "]"

def fieldText (field : RelatedField) : String :=
  braces ([member "name" (Json.quoted field.name)] ++
    optionalMember "datakey" (field.path.map fun _ => Kind.document.payload) ++
    optionalMember "key" field.path ++ [member "query" (Json.quoted field.query)])

def inverseText (inverse : Inverse) : String :=
  braces [member "type" (Json.quoted inverse.typeName), member "property" (Json.quoted inverse.property)]

/-- The description of a relation, its members in the order type, source, inverse, fields. -/
def text (relation : Relation) : String :=
  braces (optionalMember "type" relation.typeName ++
    [member "sourceProperty" (Json.quoted relation.source)] ++
    (relation.inverse.map fun inverse => member "inverse" (inverseText inverse)).toList ++
    [member "fields" (brackets (relation.fields.map fieldText))])

end Relation

namespace Target

/-- The expression of a list of relations, whose description is its one parameter. -/
def relatedExpression (target : Target) (description : String) : Fragment :=
  let before := "docstore_related(\"id\", " ++ target.payloadColumn ++ ", "
  match target.dialect with
  | .postgres => [.text before, .value (.string description), .text "::jsonb)"]
  | .sqlite => [.text before, .value (.string description), .text ")"]

def compileRelations (target : Target) (relations : List Json) : Except CompileFault Predicate := do
  let relations ← relations.mapM (Relation.ofJson? target)
  let description := Relation.brackets (relations.map Relation.text)
  return (Predicate.ofFragment (target.relatedExpression description)).note "relations"
    (.nat relations.length)

end Target

/-! ### Fields -/

inductive Landing where
  | column (name : String)
  | payload (name : String) (path : List String)
  | related
  deriving DecidableEq, Repr, Inhabited

/-- The member that asks for related documents, and the attribute they arrive in. -/
def relatedName : String := "$related"

namespace Target

def landing (target : Target) : Key → Landing
  | .column c _ => .column c.name
  | .path segments => .payload target.kind.payload segments

/-- A field is a key, or an object whose one member lists relations. -/
def compileField (target : Target) (field : Json) : Except CompileFault (Predicate × Landing) :=
  match field with
  | .string text => do
    let key ← Key.ofText? target.kind text
    return (Predicate.ofFragment (target.extraction key true), target.landing key)
  | .object [(name, .array relations)] =>
    if name = relatedName then do return (← target.compileRelations relations, .related)
    else .error (.invalidField field)
  | _ => .error (.invalidField field)

end Target

end Dossier
