import SchemaForms.Schema.Basic

/-!
# Correct schemas

`Schema.check` accepts a root schema or names the first fault. A node may have one keyword group
only; its references have to name a definition of the root, its types have to be known, its
enumeration must not repeat a value, its two maps of properties must not share a name, and every
schema of a tagged union has to be of the properties form without the tag among its properties.

The root's own tree is checked first and then every definition in order, whether or not a reference
reaches it. Definitions of inner nodes can never be referred to and are not looked at.
-/

namespace SchemaForms

/-- Why a schema is not correct. -/
inductive SchemaFault where
  /-- More than one keyword group. -/
  | invalidForm
  | noSuchDefinition (name : String)
  | invalidType (typeName : String)
  | repeatedEnumValue (value : String)
  /-- A property that is both required and optional. -/
  | repeatedProperty (name : String)
  /-- A schema of a tagged union that is not of the properties form. -/
  | nonPropertiesMapping
  /-- A schema of a tagged union with the tag among its properties. -/
  | repeatedTag (tag : String)
  deriving DecidableEq, Repr

namespace SchemaFault

/-- The wording of a fault. -/
def wording : SchemaFault → String
  | invalidForm => "jsl: ambiguous or invalid schema form"
  | noSuchDefinition name => "jsl: no such definition: " ++ name
  | invalidType typeName => "jsl: no such type: " ++ typeName
  | repeatedEnumValue value => "jsl: repeated enum value: " ++ value
  | repeatedProperty name =>
    "jsl: repeated property in properties and optionalProperties: " ++ name
  | nonPropertiesMapping => "jsl: value of discriminator mapping is not of properties form"
  | repeatedTag tag =>
    "jsl: discriminator tag repeated in properties or optionalProperties: " ++ tag

end SchemaFault

/-- The outcome of a check. -/
abbrev Checked := Except SchemaFault Unit

/-- Whether a map has a key. -/
def hasKey {α : Type} (members : List (String × α)) (key : String) : Bool :=
  members.any (·.1 = key)

/-- The entries of a map that may be absent. -/
def entries {α : Type} (map : Option (List (String × α))) : List (String × α) :=
  map.getD []

namespace Schema

/-- The reference names a definition. -/
def checkRef (names : List String) (name : String) : Checked :=
  if names.contains name then .ok () else .error (.noSuchDefinition name)

/-- The type is known. -/
def checkType (typeName : String) : Checked :=
  if (ScalarType.ofName? typeName).isSome then .ok () else .error (.invalidType typeName)

/-- No value comes twice; `seen` are the values in front. -/
def checkEnum (seen : List String) : List String → Checked
  | [] => .ok ()
  | value :: rest =>
    if seen.contains value then .error (.repeatedEnumValue value)
    else checkEnum (value :: seen) rest

/-- The two maps of properties share no name. -/
def checkDisjoint (required optional : List (String × Schema)) : Checked :=
  match required.find? (hasKey optional ·.1) with
  | some (name, _) => .error (.repeatedProperty name)
  | none => .ok ()

/-- A schema under a tag is of the properties form and leaves the tag to the union. -/
def checkTagged (tag : String) (s : Schema) : Checked :=
  if s.form ≠ .properties then .error .nonPropertiesMapping
  else if hasKey (entries s.properties) tag || hasKey (entries s.optionalProperties) tag then
    .error (.repeatedTag tag)
  else .ok ()

/-- One keyword group after another: a group that is present must be the first one, and has to pass
its own check. -/
def checkGroups (occupied : Bool) : List (Option Checked) → Checked
  | [] => .ok ()
  | none :: rest => checkGroups occupied rest
  | some group :: rest =>
    if occupied then .error .invalidForm
    else do
      group
      checkGroups true rest

mutual
/-- Checks a node and everything below it; `names` are the definitions that can be referred to. -/
def checkNode (names : List String) : Schema → Checked
  | ⟨_, ref, type, enum, elements, properties, optionalProperties, values, discriminator⟩ =>
    checkGroups false [
      ref.map (checkRef names),
      (type.filter (· ≠ "")).map checkType,
      enum.map (checkEnum []),
      match elements with
      | none => none
      | some item => some (checkNode names item),
      match properties, optionalProperties with
      | none, none => none
      | some required, none => some (checkNodes names required)
      | none, some optional => some (checkNodes names optional)
      | some required, some optional => some do
        checkDisjoint required optional
        checkNodes names required
        checkNodes names optional,
      match values with
      | none => none
      | some member => some (checkNode names member),
      match discriminator with
      | none => none
      | some ⟨_, none⟩ => none
      | some ⟨tag, some mapping⟩ => some (checkMapping names tag mapping)]

/-- Checks the nodes of a map, in order. -/
def checkNodes (names : List String) : List (String × Schema) → Checked
  | [] => .ok ()
  | (_, s) :: rest => do
    checkNode names s
    checkNodes names rest

/-- Checks the nodes of a tagged union, in order. -/
def checkMapping (names : List String) (tag : String) : List (String × Schema) → Checked
  | [] => .ok ()
  | (_, s) :: rest => do
    checkNode names s
    checkTagged tag s
    checkMapping names tag rest
end

/-- Checks a root schema. -/
def check (root : Schema) : Checked := do
  let definitions := entries root.definitions
  let names := definitions.map (·.1)
  checkNode names root
  checkNodes names definitions

end Schema

end SchemaForms
