import SchemaForms.Proofs.Schema.Aligned

/-!
# One node changed

`Edited P` relates a node to what it becomes when one node of its tree is changed in a way that `P`
allows, and `EditedOnce P` a root, where the changed node may also be in the tree of a definition. A
node that is not the changed one itself is aligned with what it becomes
(`Edited.here_or_aligned`), so a relation that holds between the changed nodes and goes up from
aligned ones holds between the whole trees (`Edited.lift`).
-/

namespace SchemaForms.Schema

/-- The second node is the first one with one node of its tree changed. -/
inductive Edited (P : Schema → Schema → Prop) : Schema → Schema → Prop
  | here {s t : Schema} (h : P s t) : Edited P s t
  | elements {s t t' : Schema} (h : s.elements = some t) (ht : Edited P t t') :
      Edited P s { s with elements := some t' }
  | properties {s t t' : Schema} {before after : List (String × Schema)} {name : String}
      (h : s.properties = some (before ++ (name, t) :: after)) (ht : Edited P t t') :
      Edited P s { s with properties := some (before ++ (name, t') :: after) }
  | optionalProperties {s t t' : Schema} {before after : List (String × Schema)} {name : String}
      (h : s.optionalProperties = some (before ++ (name, t) :: after)) (ht : Edited P t t') :
      Edited P s { s with optionalProperties := some (before ++ (name, t') :: after) }
  | values {s t t' : Schema} (h : s.values = some t) (ht : Edited P t t') :
      Edited P s { s with values := some t' }
  | discriminator {s t t' : Schema} {tag value : String} {before after : List (String × Schema)}
      (h : s.discriminator = some ⟨tag, some (before ++ (value, t) :: after)⟩)
      (ht : Edited P t t') :
      Edited P s { s with discriminator := some ⟨tag, some (before ++ (value, t') :: after)⟩ }

/-- The second root is the first one with one node changed, in its own tree or in the tree of a
definition. A change of the root itself leaves the definitions alone. -/
inductive EditedOnce (P : Schema → Schema → Prop) (root : Schema) : Schema → Prop
  | tree {t : Schema} (h : Edited P root t) (hdefinitions : t.definitions = root.definitions) :
      EditedOnce P root t
  | definition {s t : Schema} {before after : List (String × Schema)} {name : String}
      (h : root.definitions = some (before ++ (name, s) :: after)) (ht : Edited P s t) :
      EditedOnce P root { root with definitions := some (before ++ (name, t) :: after) }

/-- The node is what it was, or has one node of its tree changed. -/
def Within (P : Schema → Schema → Prop) (s t : Schema) : Prop := s = t ∨ Edited P s t

variable {P C : Schema → Schema → Prop} {root root' s t : Schema}

theorem Within.refl (s : Schema) : Within P s s := .inl rfl

/-- The induction on the way to the changed node: a node above it is aligned with what it
becomes. -/
theorem Edited.aligned_induction (here : ∀ s t, P s t → C s t)
    (node : ∀ s t, s.Aligned (fun u v => u = v ∨ Edited P u v ∧ C u v) t → C s t)
    (h : Edited P s t) : C s t := by
  have hself : ∀ s : Schema, s = s ∨ Edited P s s ∧ C s s := fun _ => .inl rfl
  have hrefl := Aligned.refl (C := fun u v => u = v ∨ Edited P u v ∧ C u v) hself
  induction h with
  | here h => exact here _ _ h
  | @elements s _ _ h ht ih =>
    exact node _ _ { hrefl s with elements := h ▸ .some (.inr ⟨ht, ih⟩) }
  | @properties s _ _ _ _ _ h ht ih =>
    exact node _ _ { hrefl s with
      properties := h ▸ .some (.replace hself _ _ _ (.inr ⟨ht, ih⟩)) }
  | @optionalProperties s _ _ _ _ _ h ht ih =>
    exact node _ _ { hrefl s with
      optionalProperties := h ▸ .some (.replace hself _ _ _ (.inr ⟨ht, ih⟩)) }
  | @values s _ _ h ht ih =>
    exact node _ _ { hrefl s with values := h ▸ .some (.inr ⟨ht, ih⟩) }
  | @discriminator s _ _ _ _ _ _ h ht ih =>
    exact node _ _ { hrefl s with
      discriminator := h ▸ .some ⟨rfl, .some (.replace hself _ _ _ (.inr ⟨ht, ih⟩))⟩ }

/-- A node is aligned with what it becomes, unless it is the changed one itself. -/
theorem Edited.here_or_aligned (h : Edited P s t) : P s t ∨ s.Aligned (Within P) t := by
  refine h.aligned_induction (C := fun s t => P s t ∨ s.Aligned (Within P) t)
    (fun _ _ => .inl) fun s t hst => .inr (hst.imp fun u v huv => ?_)
  exact huv.imp id And.left

/-- What holds between the changed nodes and goes up from aligned ones holds of the whole trees. -/
theorem Edited.lift (hrefl : ∀ s, C s s) (here : ∀ s t, P s t → C s t)
    (node : ∀ s t, s.Aligned C t → C s t) (h : Edited P s t) : C s t := by
  refine h.aligned_induction here fun s t hst => node s t (hst.imp fun u v huv => ?_)
  rcases huv with rfl | ⟨-, huv⟩
  · exact hrefl u
  · exact huv

/-- The second node is the changed one, or demands what the first one does with a node further down
changed. -/
def Changed (P : Schema → Schema → Prop) (s t : Schema) : Prop :=
  P s t ∨ s.rule.Alike (Within P) t.rule

theorem Within.changed (h : Within P s t) : Changed P s t := by
  rcases h with rfl | h
  · exact .inr (.refl Within.refl _)
  · exact h.here_or_aligned.imp_right Aligned.rule_alike

namespace EditedOnce

theorem definitions (h : EditedOnce P root root') :
    Option.Rel (EntriesAlike (Within P)) root.definitions root'.definitions := by
  cases h with
  | tree h hdefinitions =>
    rw [hdefinitions]
    exact optionRel_refl (EntriesAlike.refl Within.refl) _
  | definition h ht =>
    rw [h]
    exact .some (.replace Within.refl _ _ _ (.inr ht))

theorem changed (h : EditedOnce P root root') : Changed P root root' := by
  cases h with
  | tree h _ => exact Within.changed (.inr h)
  | definition h ht => exact .inr (.refl Within.refl _)

end EditedOnce

end SchemaForms.Schema
