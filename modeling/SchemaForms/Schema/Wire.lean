import SchemaForms.Schema.Basic
import SchemaForms.Value.Basic

/-!
# Schemas as documents

`Schema.ofValue` decodes a document of the wire shape, `Schema.toValue` writes a schema as one. A
keyword that is `null` counts as absent, and so does an empty type; unknown keywords are dropped. A
part of the wrong kind, which the wire shape excludes, is read as absent.
-/

namespace SchemaForms

namespace Value

/-- The text of a string. -/
def toString? : Value → Option String
  | string text => some text
  | _ => none

/-- The strings among some items. -/
def strings (items : List Value) : List String := items.filterMap toString?

end Value

namespace Schema

mutual
/-- The schema that a document describes. -/
def ofValue : Value → Schema
  | .object members => ofMembers members
  | _ => empty

/-- The schema with these keywords. The first of two members with one key counts. -/
def ofMembers : List (String × Value) → Schema
  | [] => empty
  | (key, value) :: rest =>
    let s := ofMembers rest
    match key with
    | "definitions" => { s with definitions := mapOfValue value }
    | "ref" => { s with ref := value.toString? }
    | "type" => { s with type := value.toString?.filter (· ≠ "") }
    | "enum" => { s with
        enum := match value with
          | .array items => some (Value.strings items)
          | _ => none }
    | "elements" => { s with elements := nodeOfValue value }
    | "properties" => { s with properties := mapOfValue value }
    | "optionalProperties" => { s with optionalProperties := mapOfValue value }
    | "values" => { s with values := nodeOfValue value }
    | "discriminator" => { s with
        discriminator := match value with
          | .object parts => some (discriminatorOfMembers parts)
          | _ => none }
    | _ => s

/-- The schema of a keyword that holds one. -/
def nodeOfValue : Value → Option Schema
  | .object members => some (ofMembers members)
  | _ => none

/-- The map of a keyword that holds schemas under names. -/
def mapOfValue : Value → Option (List (String × Schema))
  | .object members => some (mapOfMembers members)
  | _ => none

/-- Every member decoded. -/
def mapOfMembers : List (String × Value) → List (String × Schema)
  | [] => []
  | (key, value) :: rest => (key, ofValue value) :: mapOfMembers rest

/-- The tag and the mapping of a tagged union; a tag that is missing is the empty name. -/
def discriminatorOfMembers : List (String × Value) → Discriminator Schema
  | [] => ⟨"", none⟩
  | (key, value) :: rest =>
    let d := discriminatorOfMembers rest
    match key with
    | "tag" => { d with tag := value.toString?.getD "" }
    | "mapping" => { d with mapping := mapOfValue value }
    | _ => d
end

/-- A member, if its value is there. -/
def member? (key : String) (value : Option Value) : List (String × Value) :=
  (value.map fun v => (key, v)).toList

mutual
/-- The document that describes a schema: the keywords it has, in their usual order. -/
def toValue : Schema → Value
  | ⟨definitions, ref, type, enum, elements, properties, optionalProperties, values,
      discriminator⟩ =>
    .object <|
      member? "definitions" (match definitions with
        | none => none
        | some map => some (.object (mapToMembers map))) ++
      member? "ref" (ref.map .string) ++
      member? "type" ((type.filter (· ≠ "")).map .string) ++
      member? "enum" (enum.map fun names => .array (names.map .string)) ++
      member? "elements" (match elements with
        | none => none
        | some s => some (toValue s)) ++
      member? "properties" (match properties with
        | none => none
        | some map => some (.object (mapToMembers map))) ++
      member? "optionalProperties" (match optionalProperties with
        | none => none
        | some map => some (.object (mapToMembers map))) ++
      member? "values" (match values with
        | none => none
        | some s => some (toValue s)) ++
      member? "discriminator" (match discriminator with
        | none => none
        | some ⟨tag, none⟩ => some (.object [("tag", .string tag)])
        | some ⟨tag, some map⟩ =>
          some (.object [("tag", .string tag), ("mapping", .object (mapToMembers map))]))

/-- Every schema of a map written out. -/
def mapToMembers : List (String × Schema) → List (String × Value)
  | [] => []
  | (key, s) :: rest => (key, toValue s) :: mapToMembers rest
end

end Schema

end SchemaForms
