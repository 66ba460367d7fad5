import SchemaForms.ScalarType

/-!
# Schemas

A `Schema` holds every keyword group of a schema node, present or absent, so it need not be correct:
`Schema.check` is what a schema has to pass before documents are judged by it. `Schema.rule` reads
off what a node demands, by a fixed order of precedence, and `Schema.form` is the name of that rule.
-/

namespace SchemaForms

/-- What a tagged union says: the member that holds the tag, and a schema for each tag value. -/
structure Discriminator (σ : Type) where
  tag : String
  mapping : Option (List (String × σ))

/-- A schema node. A keyword that the schema does not have is `none`; the maps keep the order of
the document. Only the definitions of the root can be referred to. -/
structure Schema where
  definitions : Option (List (String × Schema)) := none
  ref : Option String := none
  type : Option String := none
  enum : Option (List String) := none
  elements : Option Schema := none
  properties : Option (List (String × Schema)) := none
  optionalProperties : Option (List (String × Schema)) := none
  values : Option Schema := none
  discriminator : Option (Discriminator Schema) := none

/-- The eight forms of schema. -/
inductive Form where
  | empty
  | ref
  | type
  | enum
  | elements
  | properties
  | values
  | discriminator
  deriving DecidableEq, Repr

namespace Form

/-- All forms, in their usual order. -/
def all : List Form := [empty, ref, type, enum, elements, properties, values, discriminator]

/-- The name of a form. -/
def name : Form → String
  | empty => "empty"
  | ref => "ref"
  | type => "type"
  | enum => "enum"
  | elements => "elements"
  | properties => "properties"
  | values => "values"
  | discriminator => "discriminator"

/-- The form of a name. -/
def ofName? (name : String) : Option Form :=
  all.find? (·.name = name)

end Form

/-- What a schema node demands of a document. -/
inductive Rule where
  /-- Everything passes. -/
  | anything
  /-- The definition of this name has to be met. -/
  | definition (name : String)
  /-- A value of the type of this name. -/
  | scalar (typeName : String)
  /-- One of these strings. -/
  | oneOf (values : List String)
  /-- An array of items that each meet the schema. -/
  | elements (item : Schema)
  /-- An object with these members; one of the two maps may be absent. -/
  | properties (required optional : Option (List (String × Schema)))
  /-- An object of members that each meet the schema. -/
  | values (member : Schema)
  /-- An object whose member `tag` chooses the schema to meet. -/
  | tagged (tag : String) (mapping : List (String × Schema))

namespace Schema

/-- The schema without keywords. -/
def empty : Schema := {}

/-- The type of a schema node that names one; an empty name counts as none. -/
def typeName? (s : Schema) : Option String := s.type.filter (· ≠ "")

/-- The mapping of a tagged union. -/
def mapping? (s : Schema) : Option (Discriminator Schema × List (String × Schema)) :=
  s.discriminator.bind fun d => d.mapping.map fun mapping => (d, mapping)

/-- What a node demands: the first keyword group it has, in the order reference, type, enumeration,
elements, properties, values, tagged union. -/
def rule (s : Schema) : Rule :=
  match s.ref, s.typeName?, s.enum, s.elements, s.properties, s.optionalProperties, s.values,
      s.mapping? with
  | some name, _, _, _, _, _, _, _ => .definition name
  | none, some typeName, _, _, _, _, _, _ => .scalar typeName
  | none, none, some values, _, _, _, _, _ => .oneOf values
  | none, none, none, some item, _, _, _, _ => .elements item
  | none, none, none, none, some required, optional, _, _ => .properties (some required) optional
  | none, none, none, none, none, some optional, _, _ => .properties none (some optional)
  | none, none, none, none, none, none, some member, _ => .values member
  | none, none, none, none, none, none, none, some (d, mapping) => .tagged d.tag mapping
  | none, none, none, none, none, none, none, none => .anything

end Schema

/-- The form that a rule belongs to. -/
def Rule.form : Rule → Form
  | anything => .empty
  | definition _ => .ref
  | scalar _ => .type
  | oneOf _ => .enum
  | elements _ => .elements
  | properties _ _ => .properties
  | values _ => .values
  | tagged _ _ => .discriminator

/-- The form of a schema node. -/
def Schema.form (s : Schema) : Form := s.rule.form

end SchemaForms
