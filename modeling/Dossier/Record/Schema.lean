import Dossier.Json.Basic

/-!
Type schemas, which say of what sort a payload attribute is.
-/

namespace Dossier

/-- The schema of a type of document: any JSON value, in which `properties` members are followed. -/
structure Schema where
  value : Json
  deriving Repr, Inhabited

namespace Schema

def empty : Schema := ⟨.null⟩

/-- The part of a schema that describes the attribute at a path. -/
def descend : Json → List String → Option Json
  | schema, [] => some schema
  | schema, name :: path => do
    let properties ← schema.get? "properties"
    let inner ← properties.get? name
    descend inner path

/-- The `type` text that the schema gives to the attribute at a path. -/
def propertyType (schema : Schema) (path : List String) : Option String := do
  let inner ← descend schema.value path
  (← inner.get? "type").string?

end Schema

end Dossier
