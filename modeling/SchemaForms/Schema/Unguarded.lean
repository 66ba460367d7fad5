import SchemaForms.Schema.Wire

/-!
# Decoding unguarded

`Schema.unguarded?` decodes a document whose shape nobody has looked at. It asks for the members of
whatever stands where a schema, a map or a tagged union has to be, and for the items of whatever
stands where an enumeration has to be; it comes to nothing where there are none to be had, and where
a schema would be left with something else than a text for a text.
-/

namespace SchemaForms

namespace Value

/-- Whether a value counts as false where a truth value is asked for: nothing, zero, and whatever is
empty. -/
def isBlank : Value → Bool
  | null => true
  | bool b => !b
  | number n => n.toInt? = some 0
  | string text => text = ""
  | array items => items.isEmpty
  | object members => members.isEmpty
  | foreign _ => false

/-- The text of a keyword that may be null. -/
def textOrNull? : Value → Option (Option String)
  | null => some none
  | string text => some (some text)
  | _ => none

/-- The text of a keyword for which whatever is blank counts as missing. -/
def textOrBlank? (v : Value) : Option (Option String) :=
  if v.isBlank then some none else v.textOrNull?

/-- The texts that are met when the items of a value are gone through: those of a string are its
characters, and those of an object its keys. -/
def itemTexts? : Value → Option (List String)
  | array items => items.mapM toString?
  | string text => some (text.toList.map fun c => String.ofList [c])
  | object members => some (members.map (·.1))
  | _ => none

/-- The texts of a keyword that may be null. -/
def itemTextsOrNull? : Value → Option (Option (List String))
  | null => some none
  | v => v.itemTexts?.map some

end Value

namespace Schema

mutual
/-- The schema of a document, if it can be decoded as it stands. -/
def unguarded? : Value → Option Schema
  | .object members => unguardedMembers? members
  | _ => none

/-- The schema with these keywords. The first of two members with one key counts. -/
def unguardedMembers? : List (String × Value) → Option Schema
  | [] => some empty
  | (key, value) :: rest => do
    let s ← unguardedMembers? rest
    match key with
    | "definitions" => return { s with definitions := ← unguardedMap? value }
    | "ref" => return { s with ref := ← value.textOrNull? }
    | "type" => return { s with type := ← value.textOrBlank? }
    | "enum" => return { s with enum := ← value.itemTextsOrNull? }
    | "elements" => return { s with elements := ← unguardedNode? value }
    | "properties" => return { s with properties := ← unguardedMap? value }
    | "optionalProperties" => return { s with optionalProperties := ← unguardedMap? value }
    | "values" => return { s with values := ← unguardedNode? value }
    | "discriminator" => return { s with discriminator := ← unguardedUnion? value }
    | _ => return s

/-- The schema of a keyword that may be null. -/
def unguardedNode? : Value → Option (Option Schema)
  | .null => some none
  | .object members => (unguardedMembers? members).map some
  | _ => none

/-- The map of a keyword that may be null. -/
def unguardedMap? : Value → Option (Option (List (String × Schema)))
  | .null => some none
  | .object members => (unguardedEntries? members).map some
  | _ => none

/-- Every member decoded. -/
def unguardedEntries? : List (String × Value) → Option (List (String × Schema))
  | [] => some []
  | (key, value) :: rest => do
    let s ← unguarded? value
    let map ← unguardedEntries? rest
    return (key, s) :: map

/-- The tagged union of a keyword that may be null. -/
def unguardedUnion? : Value → Option (Option (Discriminator Schema))
  | .null => some none
  | .object parts => (unguardedParts? parts).map some
  | _ => none

/-- The tag and the mapping of a tagged union; a tag that is missing or blank is the empty name. -/
def unguardedParts? : List (String × Value) → Option (Discriminator Schema)
  | [] => some ⟨"", none⟩
  | (key, value) :: rest => do
    let d ← unguardedParts? rest
    match key with
    | "tag" => return { d with tag := (← value.textOrBlank?).getD "" }
    | "mapping" => return { d with mapping := ← unguardedMap? value }
    | _ => return d
end

end Schema

end SchemaForms
