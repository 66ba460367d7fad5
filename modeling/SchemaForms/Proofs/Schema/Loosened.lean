import SchemaForms.Proofs.Schema.Edited
import SchemaForms.Proofs.Validation.Types

/-!
# Schemas made looser

`Schema.Loosening` are the changes of one node after which it demands less: its type is widened, its
enumeration or its tagged union has one more choice, a property need not be present any more or may
be present now, or nothing is demanded at all. `Schema.LoosensOnce` is one such change anywhere in a
root.
-/

namespace SchemaForms

/-- The second type admits more than the first one. -/
inductive ScalarType.Widens : ScalarType → ScalarType → Prop
  | range {t t' : ScalarType} {low high low' high' : Int} (h : t.range? = some (low, high))
      (h' : t'.range? = some (low', high')) (hlow : low' ≤ low) (hhigh : high ≤ high') : Widens t t'
  | floating {t t' : ScalarType} (h : t.range?.isSome) (h' : t'.isFloating) : Widens t t'
  | text : Widens .timestamp .string

theorem ScalarType.Widens.holds {t t' : ScalarType} {v : Value} (h : t.Widens t')
    (hv : t.Holds v) : t'.Holds v := by
  rw [← admits_iff_holds] at hv ⊢
  cases h with
  | @range _ _ low high low' high' h h' hlow hhigh =>
    cases v with
    | number n =>
      simp only [admits, h, h', inRange_iff] at hv ⊢
      obtain ⟨k, hk, hlow', hhigh'⟩ := hv
      exact ⟨k, hk, by omega, by omega⟩
    | _ => simp [admits, h] at hv
  | floating h h' =>
    obtain ⟨bounds, h⟩ := Option.isSome_iff_exists.mp h
    cases v with
    | number n => cases t' <;> simp_all [admits, isFloating, range?]
    | _ => simp [admits, h] at hv
  | text =>
    cases v with
    | string text => rfl
    | _ => simp [admits, range?, isFloating] at hv

namespace Schema

/-- The second node is the first one, changed so that it demands less. -/
inductive Loosening : Schema → Schema → Prop
  | type {s : Schema} {t t' : ScalarType} (h : s.type = some t.name) (hwiden : t.Widens t') :
      Loosening s { s with type := some t'.name }
  | enum {s : Schema} {before after : List String} {text : String}
      (h : s.enum = some (before ++ after)) (hfresh : text ∉ before ++ after) :
      Loosening s { s with enum := some (before ++ text :: after) }
  | moved {s sub : Schema} {before after front back : List (String × Schema)} {name : String}
      {required : Option (List (String × Schema))}
      (h : s.properties = some (before ++ (name, sub) :: after))
      (hrequired : entries required = before ++ after)
      (hoptional : entries s.optionalProperties = front ++ back) :
      Loosening s { s with properties := required
                           optionalProperties := some (front ++ (name, sub) :: back) }
  | optional {s : Schema} {front back : List (String × Schema)} {name : String}
      (h : s.Populates .properties) (hrequired : name ∉ keys s.properties)
      (hfresh : name ∉ keys s.optionalProperties)
      (hoptional : entries s.optionalProperties = front ++ back) :
      Loosening s { s with optionalProperties := some (front ++ (name, Schema.empty) :: back) }
  | mapping {s target : Schema} {before after : List (String × Schema)} {tag text : String}
      (h : s.discriminator = some ⟨tag, some (before ++ after)⟩)
      (hfresh : text ∉ (before ++ after).map (·.1)) :
      Loosening s
        { s with discriminator := some ⟨tag, some (before ++ (text, target) :: after)⟩ }
  | emptied {s t : Schema} (h : t.form = .empty) : Loosening s t

/-- The second root is the first one with one node made looser, or without demands at all. -/
inductive LoosensOnce (root : Schema) : Schema → Prop
  | node {root' : Schema} (h : EditedOnce Loosening root root') : LoosensOnce root root'
  | emptied {root' : Schema} (h : root'.form = .empty) : LoosensOnce root root'

end Schema

end SchemaForms
