import SchemaForms.Proofs.Schema.Fault

/-!
# Definitions that no reference reaches

`Live` are the nodes that chains of references lead to from the keywords of the root itself, and
`Reaches` says which definitions they name. A root is pruned (`PrunedOf`) by leaving out definitions
that it does not reach. All definitions are checked, reached or not, so a pruned root may fail its
check: exactly if a definition that was kept refers to one that was left out (`PrunedOf.check_iff`).
-/

namespace SchemaForms.Schema

/-- The nodes that chains of references lead to, from the keywords of the root itself on. -/
inductive Live (root : Schema) : Schema → Prop
  | root : Live root root
  | child {s t : Schema} (h : Live root s) (ht : Child s t) : Live root t
  | definition {s t : Schema} {name : String} (h : Live root s) (href : s.ref = some name)
      (ht : (entries root.definitions).lookup name = some t) : Live root t

/-- A chain of references from the keywords of the root on names the definition. -/
def Reaches (root : Schema) (name : String) : Prop := ∃ s, Live root s ∧ s.ref = some name

/-- The second root is the first one without some definitions, none of which it reaches. -/
inductive PrunedOf (deleted : List String) (root : Schema) : Schema → Prop
  | mk {definitions : Option (List (String × Schema))}
      (h : entries definitions =
        (entries root.definitions).filter fun entry => !deleted.contains entry.1)
      (hunreached : ∀ name ∈ deleted, ¬ root.Reaches name) :
      PrunedOf deleted root { root with definitions := definitions }

/-- No definition that was kept refers to one that was left out. -/
def KeptApart (deleted : List String) (root' : Schema) : Prop :=
  ∀ name body s other, (name, body) ∈ entries root'.definitions → Below body s →
    s.ref = some other → other ∉ deleted

variable {root root' s t : Schema} {names names' deleted : List String} {name : String}
  {fault : SchemaFault}

theorem Live.of_below (h : Live root s) (ht : Below s t) : Live root t := by
  induction ht with
  | refl => exact h
  | tail _ hchild ih => exact ih.child hchild

/-! ## Other names to refer to -/

/-- A tree of correct nodes is one under other names exactly if its references go to these. -/
theorem AllCorrect.iff_refs (h : s.AllCorrect names) :
    s.AllCorrect names' ↔ ∀ t, Below s t → ∀ name, t.ref = some name → name ∈ names' := by
  constructor
  · exact fun h' t ht => (h' t ht).ref
  · intro hrefs t ht
    obtain ⟨hsole, -, htype, henum, hdisjoint, htagged⟩ := h t ht
    exact ⟨hsole, hrefs t ht, htype, henum, hdisjoint, htagged⟩

/-- Under fewer names nothing can go wrong in a tree of correct nodes but a reference. -/
theorem AllCorrect.fault_eq (h : s.AllCorrect names) (hfaulty : Faulty names' s fault t) :
    ∃ name, fault = .noSuchDefinition name ∧ name ∈ names ∧ name ∉ names' := by
  cases hfaulty with
  | noSuchDefinition hs href hname => exact ⟨_, rfl, (h _ hs).ref _ href, hname⟩
  | invalidType hs htype hne hname => exact absurd ((h _ hs).type _ htype hne) hname
  | repeatedEnumValue hs henum hagain _ =>
    have hnodup := (h _ hs).enum _ henum
    rw [List.nodup_middle] at hnodup
    exact absurd (List.mem_append_left _ hagain) (List.nodup_cons.mp hnodup).1
  | repeatedProperty hs hmap hagain _ =>
    refine absurd hagain ((h _ hs).disjoint _ ?_)
    rw [keys, hmap]
    simp [entries]
  | invalidForm hs hf hg hne => exact absurd ((h _ hs).sole _ _ hf hg) hne
  | nonPropertiesMapping hs hunion ht _ hform =>
    obtain ⟨hpopulates, -, -⟩ := (h _ hs).tagged _ _ hunion _ _ ht
    exact absurd ((h _ (hs.tail (.tagged hunion ht))).sole.form_eq hpopulates) hform
  | repeatedTag hs hunion ht _ htag =>
    obtain ⟨-, -, hrequired, hoptional⟩ := (h _ hs).tagged _ _ hunion _ _ ht
    exact absurd htag (not_or.mpr ⟨hrequired, hoptional⟩)

/-! ## Pruned roots -/

namespace PrunedOf

theorem mem_keys_iff (h : PrunedOf deleted root root') :
    name ∈ keys root'.definitions ↔ name ∈ keys root.definitions ∧ name ∉ deleted := by
  cases h with
  | mk h _ =>
    simp only [keys, h, List.mem_map, List.mem_filter, Bool.not_eq_true', List.contains_eq_mem,
      decide_eq_false_iff_not]
    constructor
    · rintro ⟨entry, ⟨hentry, hkept⟩, rfl⟩
      exact ⟨⟨entry, hentry, rfl⟩, hkept⟩
    · rintro ⟨⟨entry, hentry, rfl⟩, hkept⟩
      exact ⟨entry, ⟨hentry, hkept⟩, rfl⟩

theorem entries_subset (h : PrunedOf deleted root root') :
    entries root'.definitions ⊆ entries root.definitions := by
  cases h with
  | mk h _ =>
    rw [h]
    exact List.filter_subset_self _

theorem not_mem_of_reaches (h : PrunedOf deleted root root') (hname : root.Reaches name) :
    name ∉ deleted := by
  cases h with
  | mk _ hunreached => exact fun hmem => hunreached name hmem hname

/-- A definition that is reached is looked up as before. -/
theorem lookup_eq (h : PrunedOf deleted root root') (hname : root.Reaches name) :
    (entries root'.definitions).lookup name = (entries root.definitions).lookup name := by
  have hkeep : (!deleted.contains name) = true := by simpa using h.not_mem_of_reaches hname
  cases h with
  | mk h _ =>
    rw [h]
    exact lookup_filter_of_keep (fun key => !deleted.contains key) hkeep _

/-- The own tree of a root is as correct as before. -/
theorem allCorrect (h : PrunedOf deleted root root')
    (hroot : root.AllCorrect (keys root.definitions)) :
    root.AllCorrect (keys root'.definitions) := by
  refine hroot.iff_refs.mpr fun t ht name href => h.mem_keys_iff.mpr ⟨(hroot t ht).ref _ href, ?_⟩
  exact h.not_mem_of_reaches ⟨t, Live.root.of_below ht, href⟩

variable (h : PrunedOf deleted root root') (hcheck : root.check = .ok ())

include h hcheck

theorem checkNode_root : checkNode (keys root'.definitions) root' = .ok () := by
  have hroot := h.allCorrect (checkNode_eq_ok_iff_allCorrect.mp (check_eq_ok_iff.mp hcheck).1)
  have hpasses := checkNode_eq_ok_iff_allCorrect.mpr hroot
  cases h with
  | mk _ _ => rw [checkNode_definitions, hpasses]

/-- **A pruned root passes its check exactly if no definition that was kept refers to one that was
left out.** -/
theorem check_iff : root'.check = .ok () ↔ root'.KeptApart deleted := by
  have hdefinitions := (check_eq_ok_iff.mp hcheck).2
  rw [check_eq_ok_iff, and_iff_right (h.checkNode_root hcheck)]
  constructor
  · intro hpasses name body s other hmem hs href
    have hcorrect := checkNode_eq_ok_iff_allCorrect.mp (hpasses name body hmem)
    exact (h.mem_keys_iff.mp ((hcorrect s hs).ref other href)).2
  · intro hapart name body hmem
    have hcorrect := checkNode_eq_ok_iff_allCorrect.mp
      (hdefinitions name body (h.entries_subset hmem))
    refine checkNode_eq_ok_iff_allCorrect.mpr (hcorrect.iff_refs.mpr fun s hs other href => ?_)
    exact h.mem_keys_iff.mpr
      ⟨(hcorrect s hs).ref other href, hapart name body s other hmem hs href⟩

/-- If a pruned root fails its check, then for a definition that was left out. -/
theorem fault_eq {fault : SchemaFault} (hfails : root'.check = .error fault) :
    ∃ name ∈ deleted, fault = .noSuchDefinition name := by
  have hdefinitions := (check_eq_ok_iff.mp hcheck).2
  rcases bind_eq_error_iff.mp hfails with hroot | ⟨-, hfails⟩
  · cases hroot.symm.trans (h.checkNode_root hcheck)
  · obtain ⟨before, name, s, after, hsplit, -, hs⟩ := checkNodes_eq_error hfails
    obtain ⟨t, ht⟩ := exists_faulty_of_checkNode hs
    have hmem := h.entries_subset (show (name, s) ∈ entries root'.definitions by simp [hsplit])
    have hcorrect := checkNode_eq_ok_iff_allCorrect.mp (hdefinitions name s hmem)
    obtain ⟨other, rfl, hother, hnot⟩ := hcorrect.fault_eq ht
    refine ⟨other, ?_, rfl⟩
    by_contra hkept
    exact hnot (h.mem_keys_iff.mpr ⟨hother, hkept⟩)

end PrunedOf

/-- A root with two definitions that it does not reach, of which the first one refers to the second
one. The definition that it does reach has a definition of its own. -/
def withSpares : Schema where
  definitions := some [
    ("count", { type := some "int8", definitions := some [("spare", {})] }),
    ("alias", { ref := some "spare" }),
    ("spare", {})]
  ref := some "count"

theorem eq_count_of_withSpares_reaches (h : withSpares.Reaches name) : name = "count" := by
  obtain ⟨s, hlive, href⟩ := h
  have hs : s = withSpares ∨ ∃ definitions, s = { type := some "int8", definitions } := by
    clear href
    induction hlive with
    | root => exact .inl rfl
    | child _ hchild ih =>
      rcases ih with rfl | ⟨_, rfl⟩ <;> cases hchild <;> contradiction
    | definition _ href ht ih =>
      rcases ih with rfl | ⟨_, rfl⟩
      · cases href
        exact .inr ⟨_, (Option.some.inj ht).symm⟩
      · cases href
  rcases hs with rfl | ⟨_, rfl⟩
  · exact (Option.some.inj href).symm
  · cases href

/-- A root that passes and reaches neither of two definitions fails without one of them. -/
theorem withSpares_check_without_spare :
    let pruned : Schema := { withSpares with
      definitions := some [("count", { type := some "int8", definitions := some [("spare", {})] }),
        ("alias", { ref := some "spare" })] }
    withSpares.check = .ok () ∧ withSpares.PrunedOf ["spare"] pruned ∧
      pruned.check = .error (.noSuchDefinition "spare") := by
  refine ⟨rfl, .mk rfl fun name hname hreaches => ?_, rfl⟩
  rw [List.mem_singleton.mp hname] at hreaches
  exact absurd (eq_count_of_withSpares_reaches hreaches) (by decide)

end SchemaForms.Schema
