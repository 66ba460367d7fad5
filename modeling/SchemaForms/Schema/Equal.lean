import SchemaForms.Schema.Basic

/-!
# Equal schemas

Two schemas are the same if they have the same keywords, where the order of the entries of a map
does not matter and the order of an enumeration does.
-/

namespace SchemaForms.Schema

mutual
/-- Whether two schemas are the same up to the order inside their maps. -/
def same : Schema → Schema → Bool
  | ⟨definitions, ref, type, enum, elements, properties, optionalProperties, values,
      discriminator⟩, t =>
    sameMap definitions t.definitions && ref == t.ref && type == t.type && enum == t.enum &&
      sameNode elements t.elements && sameMap properties t.properties &&
      sameMap optionalProperties t.optionalProperties && sameNode values t.values &&
      sameUnion discriminator t.discriminator
  termination_by structural s => s

/-- Whether two nodes that may be absent are both absent, or the same. -/
def sameNode : Option Schema → Option Schema → Bool
  | none, none => true
  | some s, some t => same s t
  | _, _ => false
  termination_by structural s => s

/-- Whether two maps that may be absent are both absent, or the same up to order. -/
def sameMap : Option (List (String × Schema)) → Option (List (String × Schema)) → Bool
  | none, none => true
  | some a, some b => a.length == b.length && sameEntries a b
  | _, _ => false
  termination_by structural map => map

/-- Whether two tagged unions that may be absent are both absent, or the same up to order. -/
def sameUnion : Option (Discriminator Schema) → Option (Discriminator Schema) → Bool
  | none, none => true
  | some ⟨tag, mapping⟩, some other => tag == other.tag && sameMap mapping other.mapping
  | _, _ => false
  termination_by structural union => union

/-- Whether every entry of the first map has the same schema in the second. -/
def sameEntries : List (String × Schema) → List (String × Schema) → Bool
  | [], _ => true
  | (key, s) :: rest, others =>
    (match others.lookup key with
      | some t => same s t
      | none => false) && sameEntries rest others
  termination_by structural map => map
end

end SchemaForms.Schema
