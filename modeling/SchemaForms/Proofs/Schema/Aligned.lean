import SchemaForms.Proofs.Schema.Reordered

/-!
# Schemas aligned

Two nodes are *aligned* if they have the same keywords, with related schemas in the same places
(`Schema.Aligned`). Then they agree keyword by keyword (`Aligned.agree`) and demand alike
(`Aligned.rule_alike`): rules of one kind, with related schemas in the same places again.
-/

namespace SchemaForms

/-- The same keys in the same order, with related schemas behind them. -/
abbrev EntriesAlike (C : Schema → Schema → Prop) :
    List (String × Schema) → List (String × Schema) → Prop :=
  List.Forall₂ fun x y => x.1 = y.1 ∧ C x.2 y.2

/-- Two rules of one kind, with related schemas in the same places. -/
inductive Rule.Alike (C : Schema → Schema → Prop) : Rule → Rule → Prop
  | anything : Alike C .anything .anything
  | definition (name : String) : Alike C (.definition name) (.definition name)
  | scalar (typeName : String) : Alike C (.scalar typeName) (.scalar typeName)
  | oneOf (texts : List String) : Alike C (.oneOf texts) (.oneOf texts)
  | elements {item item' : Schema} (h : C item item') : Alike C (.elements item) (.elements item')
  | properties {required required' optional optional' : Option (List (String × Schema))}
      (hrequired : Option.Rel (EntriesAlike C) required required')
      (hoptional : Option.Rel (EntriesAlike C) optional optional') :
      Alike C (.properties required optional) (.properties required' optional')
  | values {member member' : Schema} (h : C member member') :
      Alike C (.values member) (.values member')
  | tagged (tag : String) {mapping mapping' : List (String × Schema)}
      (h : EntriesAlike C mapping mapping') : Alike C (.tagged tag mapping) (.tagged tag mapping')

/-- Two nodes have the same keywords, with related schemas in the same places. -/
structure Schema.Aligned (C : Schema → Schema → Prop) (s t : Schema) : Prop where
  definitions : Option.Rel (EntriesAlike C) s.definitions t.definitions
  ref : s.ref = t.ref
  type : s.type = t.type
  enum : s.enum = t.enum
  elements : Option.Rel C s.elements t.elements
  properties : Option.Rel (EntriesAlike C) s.properties t.properties
  optionalProperties : Option.Rel (EntriesAlike C) s.optionalProperties t.optionalProperties
  values : Option.Rel C s.values t.values
  discriminator : Option.Rel
    (fun d e => d.tag = e.tag ∧ Option.Rel (EntriesAlike C) d.mapping e.mapping)
    s.discriminator t.discriminator

variable {C : Schema → Schema → Prop} {a b : List (String × Schema)} {s t : Schema}

/-! ## Maps alike -/

theorem EntriesAlike.refl (hC : ∀ s, C s s) (a : List (String × Schema)) : EntriesAlike C a a :=
  List.forall₂_same.mpr fun _ _ => ⟨rfl, hC _⟩

/-- One entry of a map replaced. -/
theorem EntriesAlike.replace (hC : ∀ s, C s s) (before after : List (String × Schema))
    (name : String) (h : C s t) :
    EntriesAlike C (before ++ (name, s) :: after) (before ++ (name, t) :: after) :=
  List.rel_append (EntriesAlike.refl hC before) (.cons ⟨rfl, h⟩ (EntriesAlike.refl hC after))

theorem EntriesAlike.keys_eq (h : EntriesAlike C a b) : a.map (·.1) = b.map (·.1) := by
  induction h with
  | nil => rfl
  | cons hxy _ ih => rw [List.map_cons, List.map_cons, hxy.1, ih]

theorem EntriesAlike.lookup (h : EntriesAlike C a b) (key : String) :
    Option.Rel C (a.lookup key) (b.lookup key) := by
  induction h with
  | nil => exact .none
  | @cons x y _ _ hxy _ ih =>
    obtain ⟨name, s⟩ := x
    obtain ⟨_, t⟩ := y
    obtain ⟨rfl, hst⟩ := hxy
    rw [List.lookup_cons, List.lookup_cons]
    cases key == name with
    | true => exact .some hst
    | false => exact ih

theorem entriesAlike_of_rel {a b : Option (List (String × Schema))}
    (h : Option.Rel (EntriesAlike C) a b) : EntriesAlike C (entries a) (entries b) := by
  cases h with
  | none => exact .nil
  | some h => exact h

/-! ## Nodes aligned -/

theorem Rule.Alike.refl (hC : ∀ s, C s s) (r : Rule) : r.Alike C r := by
  cases r with
  | anything => exact .anything
  | definition name => exact .definition name
  | scalar typeName => exact .scalar typeName
  | oneOf texts => exact .oneOf texts
  | elements item => exact .elements (hC item)
  | properties required optional =>
    exact .properties (optionRel_refl (EntriesAlike.refl hC) _)
      (optionRel_refl (EntriesAlike.refl hC) _)
  | values member => exact .values (hC member)
  | tagged tag mapping => exact .tagged tag (EntriesAlike.refl hC mapping)

namespace Schema.Aligned

theorem refl (hC : ∀ s, C s s) (s : Schema) : s.Aligned C s where
  definitions := optionRel_refl (EntriesAlike.refl hC) _
  ref := rfl
  type := rfl
  enum := rfl
  elements := optionRel_refl hC _
  properties := optionRel_refl (EntriesAlike.refl hC) _
  optionalProperties := optionRel_refl (EntriesAlike.refl hC) _
  values := optionRel_refl hC _
  discriminator := optionRel_refl
    (fun _ => ⟨rfl, optionRel_refl (EntriesAlike.refl hC) _⟩) _

theorem imp {D : Schema → Schema → Prop} (h : s.Aligned C t) (hCD : ∀ u v, C u v → D u v) :
    s.Aligned D t :=
  have hentries : ∀ a b, EntriesAlike C a b → EntriesAlike D a b := fun _ _ hab =>
    hab.imp fun _ _ hxy => ⟨hxy.1, hCD _ _ hxy.2⟩
  { definitions := optionRel_imp hentries h.definitions
    ref := h.ref
    type := h.type
    enum := h.enum
    elements := optionRel_imp hCD h.elements
    properties := optionRel_imp hentries h.properties
    optionalProperties := optionRel_imp hentries h.optionalProperties
    values := optionRel_imp hCD h.values
    discriminator := optionRel_imp
      (fun _ _ hde => ⟨hde.1, optionRel_imp hentries hde.2⟩) h.discriminator }

theorem agree (h : s.Aligned C t) : s.Agree C t where
  definitions := optionRel_imp (fun _ _ => .of_forall₂) h.definitions
  ref := h.ref
  type := h.type
  enum := h.enum
  elements := h.elements
  properties := optionRel_imp (fun _ _ => .of_forall₂) h.properties
  optionalProperties := optionRel_imp (fun _ _ => .of_forall₂) h.optionalProperties
  values := h.values
  discriminator := optionRel_imp
    (fun _ _ hde => ⟨hde.1, optionRel_imp (fun _ _ => .of_forall₂) hde.2⟩) h.discriminator

theorem mapping? (h : s.Aligned C t) :
    Option.Rel (fun x y => x.1.tag = y.1.tag ∧ EntriesAlike C x.2 y.2) s.mapping? t.mapping? := by
  unfold Schema.mapping?
  rcases rel_cases h.discriminator with ⟨hd, he⟩ | ⟨d, e, hd, he, htag, hmapping⟩
  · rw [hd, he]
    exact .none
  · rw [hd, he, Option.bind_some, Option.bind_some]
    rcases rel_cases hmapping with ⟨hm, hn⟩ | ⟨m, n, hm, hn, hmn⟩
    · rw [hm, hn]
      exact .none
    · rw [hm, hn]
      exact .some ⟨htag, hmn⟩

/-- Aligned nodes demand alike. -/
theorem rule_alike (h : s.Aligned C t) : s.rule.Alike C t.rule := by
  have htype : s.typeName? = t.typeName? := congrArg (Option.filter _) h.type
  unfold rule
  rw [h.ref, htype, h.enum]
  rcases t.ref with _ | name
  · rcases t.typeName? with _ | typeName
    · rcases t.enum with _ | texts
      · rcases rel_cases h.elements with ⟨hs, ht⟩ | ⟨_, _, hs, ht, hitem⟩ <;> rw [hs, ht]
        · rcases rel_cases h.properties with ⟨hs, ht⟩ | ⟨_, _, hs, ht, hrequired⟩ <;> rw [hs, ht]
          · rcases rel_cases h.optionalProperties with ⟨hs, ht⟩ | ⟨_, _, hs, ht, hoptional⟩ <;>
              rw [hs, ht]
            · rcases rel_cases h.values with ⟨hs, ht⟩ | ⟨_, _, hs, ht, hmember⟩ <;> rw [hs, ht]
              · rcases rel_cases h.mapping? with
                  ⟨hs, ht⟩ | ⟨⟨⟨tag, _⟩, m⟩, ⟨⟨tag', _⟩, n⟩, hs, ht, htag, hmapping⟩ <;> rw [hs, ht]
                · exact .anything
                · obtain rfl : tag = tag' := htag
                  exact .tagged tag hmapping
              · exact .values hmember
            · exact .properties .none (.some hoptional)
          · exact .properties (.some hrequired) h.optionalProperties
        · exact .elements hitem
      · exact .oneOf texts
    · exact .scalar typeName
  · exact .definition name

end Schema.Aligned

end SchemaForms
