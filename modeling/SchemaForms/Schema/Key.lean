import SchemaForms.Schema.Basic
import SchemaForms.Text.Quoted

/-!
# Schemas as keys

A schema without maps and lists cannot change, so it can be the key of a mapping. `Schema.keyText?`
is its text then, which names every keyword, absent or not. Two such schemas are equal exactly if
their texts are.
-/

namespace SchemaForms

/-- What a keyword comes to in the text of a key, where it may be absent. -/
def keywordText (text : Option String) : String := text.getD "None"

/-- The text of a tagged union as a part of a key. -/
def Discriminator.keyText? {σ : Type} (d : Discriminator σ) : Option String :=
  match d.mapping with
  | none => some ("Discriminator(tag=" ++ Text.quoted d.tag ++ ", mapping=None)")
  | some _ => none

/-- The text of a schema as a key, if it can be one. -/
def Schema.keyText? : Schema → Option String
  | ⟨none, ref, type, none, elements, none, none, values, discriminator⟩ => do
    let elements ← match elements with
      | none => some none
      | some s => (keyText? s).map some
    let values ← match values with
      | none => some none
      | some s => (keyText? s).map some
    let discriminator ← match discriminator with
      | none => some none
      | some d => d.keyText?.map some
    some ("Schema(definitions=None, ref=" ++ keywordText (ref.map Text.quoted) ++
      ", type=" ++ keywordText (type.map Text.quoted) ++ ", enum=None, elements=" ++
      keywordText elements ++ ", properties=None, optional_properties=None, values=" ++
      keywordText values ++ ", discriminator=" ++ keywordText discriminator ++ ")")
  | _ => none

end SchemaForms
