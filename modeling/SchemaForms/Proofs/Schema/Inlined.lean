import SchemaForms.Proofs.Schema.Aligned

/-!
# References put in place

`Inlines` relates a node to what it becomes when one reference in its tree gives way to the body of
the definition that it names, and `InlinesOnce` a root, where the reference may also stand in the
tree of a definition. A node is aligned with what it becomes, unless it is the reference itself
(`Inlines.here_or_aligned`), so a root that passes its check passes it afterwards
(`InlinesOnce.check`).
-/

namespace SchemaForms.Schema

/-- The second node is the first one with one reference in its tree replaced by what it names. -/
inductive Inlines (map : List (String × Schema)) : Schema → Schema → Prop
  | here {s body : Schema} {name : String} (h : s.ref = some name)
      (hbody : map.lookup name = some body) : Inlines map s body
  | elements {s t t' : Schema} (h : s.elements = some t) (ht : Inlines map t t') :
      Inlines map s { s with elements := some t' }
  | properties {s t t' : Schema} {before after : List (String × Schema)} {name : String}
      (h : s.properties = some (before ++ (name, t) :: after)) (ht : Inlines map t t') :
      Inlines map s { s with properties := some (before ++ (name, t') :: after) }
  | optionalProperties {s t t' : Schema} {before after : List (String × Schema)} {name : String}
      (h : s.optionalProperties = some (before ++ (name, t) :: after)) (ht : Inlines map t t') :
      Inlines map s { s with optionalProperties := some (before ++ (name, t') :: after) }
  | values {s t t' : Schema} (h : s.values = some t) (ht : Inlines map t t') :
      Inlines map s { s with values := some t' }
  | discriminator {s t t' : Schema} {tag value : String} {before after : List (String × Schema)}
      (h : s.discriminator = some ⟨tag, some (before ++ (value, t) :: after)⟩)
      (ht : Inlines map t t') :
      Inlines map s { s with discriminator := some ⟨tag, some (before ++ (value, t') :: after)⟩ }

/-- The second root is the first one with one reference, in its own tree or in the tree of a
definition, replaced by the body of the definition that it names. The root keeps its definitions if
it is the reference itself. -/
inductive InlinesOnce (root : Schema) : Schema → Prop
  | tree {t : Schema} (h : Inlines (entries root.definitions) root t) :
      InlinesOnce root { t with definitions := root.definitions }
  | definition {s t : Schema} {before after : List (String × Schema)} {name : String}
      (h : root.definitions = some (before ++ (name, s) :: after))
      (ht : Inlines (entries root.definitions) s t) :
      InlinesOnce root { root with definitions := some (before ++ (name, t) :: after) }

/-- The node is what it was, or has one reference less in its tree. -/
def Kept (map : List (String × Schema)) (s t : Schema) : Prop := s = t ∨ Inlines map s t

/-- The second node demands alike, or is the body of the definition that the first one names. -/
def InPlace (map : List (String × Schema)) (s t : Schema) : Prop :=
  s.rule.Alike (Kept map) t.rule ∨
    ∃ name body, s.ref = some name ∧ map.lookup name = some body ∧ body.rule = t.rule

variable {map : List (String × Schema)} {root root' s t : Schema} {names : List String}

theorem Kept.refl (s : Schema) : Kept map s s := .inl rfl

/-- A node is aligned with what it becomes, unless it is the reference itself. -/
theorem Inlines.here_or_aligned (h : Inlines map s t) :
    (∃ name, s.ref = some name ∧ map.lookup name = some t) ∨ s.Aligned (Kept map) t := by
  have hrefl := Aligned.refl (C := Kept map) Kept.refl s
  cases h with
  | here h hbody => exact .inl ⟨_, h, hbody⟩
  | elements h ht => exact .inr { hrefl with elements := h ▸ .some (.inr ht) }
  | properties h ht =>
    exact .inr { hrefl with properties := h ▸ .some (.replace Kept.refl _ _ _ (.inr ht)) }
  | optionalProperties h ht =>
    exact .inr { hrefl with optionalProperties := h ▸ .some (.replace Kept.refl _ _ _ (.inr ht)) }
  | values h ht => exact .inr { hrefl with values := h ▸ .some (.inr ht) }
  | discriminator h ht =>
    exact .inr { hrefl with
      discriminator := h ▸ .some ⟨rfl, .some (.replace Kept.refl _ _ _ (.inr ht))⟩ }

/-- Away from the reference a kept node is aligned with what it was. -/
theorem Kept.agree (h : Kept map s t) (href : s.ref = none) : s.Agree (Kept map) t := by
  rcases h with rfl | h
  · exact (Aligned.refl Kept.refl s).agree
  · rcases h.here_or_aligned with ⟨name, hname, -⟩ | haligned
    · cases href.symm.trans hname
    · exact haligned.agree

theorem Kept.inPlace (h : Kept map s t) : InPlace map s t := by
  rcases h with rfl | h
  · exact .inl (.refl Kept.refl _)
  · rcases h.here_or_aligned with ⟨name, hname, hbody⟩ | haligned
    · exact .inr ⟨name, t, hname, hbody, rfl⟩
    · exact .inl haligned.rule_alike

/-! ## The check -/

/-- A node that passes still passes with a reference less, if what the reference names passes. -/
theorem Inlines.checkNode (h : Inlines map s t)
    (hbodies : ∀ name body, map.lookup name = some body → checkNode names body = .ok ())
    (hs : checkNode names s = .ok ()) : checkNode names t = .ok () := by
  induction s using child_induction generalizing t with
  | node s ih =>
    rcases h.here_or_aligned with ⟨name, -, hbody⟩ | haligned
    · exact hbodies name t hbody
    · obtain ⟨hcorrect, hchild⟩ := checkNode_eq_ok_iff.mp hs
      have hagree := haligned.agree
      refine checkNode_eq_ok_iff.mpr
        ⟨hcorrect.of_agree hagree (fun _ _ => Kept.agree) fun _ => id, fun v hv => ?_⟩
      obtain ⟨u, hu, huv⟩ := hagree.flip.child hv
      rcases huv with rfl | huv
      · exact hchild u hu
      · exact ih u hu huv (hchild u hu)

namespace InlinesOnce

theorem definitions (h : InlinesOnce root root') :
    Option.Rel (EntriesAlike (Kept (entries root.definitions))) root.definitions
      root'.definitions := by
  cases h with
  | tree h => exact optionRel_refl (EntriesAlike.refl Kept.refl) _
  | definition h ht =>
    rw [h] at ht ⊢
    exact .some (.replace Kept.refl _ _ _ (.inr ht))

theorem inPlace (h : InlinesOnce root root') : InPlace (entries root.definitions) root root' := by
  cases h with
  | @tree t h =>
    have hplace : InPlace (entries root.definitions) root t := Kept.inPlace (.inr h)
    exact hplace
  | definition h ht => exact .inl (.refl Kept.refl _)

/-- **A root that passes its check passes it with a reference put in place.** -/
theorem check (h : InlinesOnce root root') (hcheck : root.check = .ok ()) :
    root'.check = .ok () := by
  obtain ⟨hroot, hentries⟩ := check_eq_ok_iff.mp hcheck
  have hnames : keys root'.definitions = keys root.definitions :=
    (entriesAlike_of_rel h.definitions).keys_eq.symm
  have hbodies : ∀ name body, (entries root.definitions).lookup name = some body →
      checkNode (keys root.definitions) body = .ok () :=
    fun name body hbody => hentries name body (mem_of_lookup hbody)
  rw [check_eq_ok_iff, hnames]
  cases h with
  | tree h =>
    refine ⟨?_, hentries⟩
    rw [checkNode_definitions]
    exact h.checkNode hbodies hroot
  | @definition s t before after name h ht =>
    refine ⟨?_, fun key u hu => ?_⟩
    · rw [checkNode_definitions]
      exact hroot
    · have hmap : ∀ {u}, (key, u) ∈ before ++ (name, s) :: after →
          checkNode (keys root.definitions) u = .ok () := fun hu =>
        hentries key _ (h ▸ hu)
      rcases List.mem_append.mp hu with hu | hu
      · exact hmap (List.mem_append_left _ hu)
      rcases List.mem_cons.mp hu with heq | hu
      · cases heq
        exact ht.checkNode hbodies (hmap (List.mem_append_right _ List.mem_cons_self))
      · exact hmap (List.mem_append_right _ (List.mem_cons_of_mem _ hu))

end InlinesOnce

end SchemaForms.Schema
