import SchemaForms.Proofs.Schema.Edited

/-!
# Keywords without effect

The definitions of an inner node can never be referred to, and a tagged union without a mapping
demands nothing: `Schema.Neglected` are the changes of one node that concern these only. They change
neither what the node demands (`Neglected.rule_eq`) nor the outcome of the check, whichever fault it
names (`Edited.check_eq`).
-/

namespace SchemaForms.Schema

/-- The second node is the first one with other definitions, or without a tagged union that has no
mapping. -/
inductive Neglected : Schema → Schema → Prop
  | definitions {s : Schema} (definitions : Option (List (String × Schema))) :
      Neglected s { s with definitions := definitions }
  | discriminator {s : Schema} {tag : String} (h : s.discriminator = some ⟨tag, none⟩) :
      Neglected s { s with discriminator := none }

variable {root root' s t : Schema} {names : List String} {tag : String}

theorem Neglected.mapping?_eq (h : Neglected s t) : s.mapping? = t.mapping? := by
  cases h with
  | definitions _ => rfl
  | discriminator h => rw [mapping?, h]; rfl

theorem Neglected.rule_eq (h : Neglected s t) : s.rule = t.rule := by
  have hmapping := h.mapping?_eq
  unfold rule
  rw [hmapping]
  cases h <;> rfl

/-! ## The check of one node -/

/-- Both nodes come out of every check alike. -/
structure CheckedAlike (names : List String) (s t : Schema) : Prop where
  node : checkNode names s = checkNode names t
  tagged : ∀ tag, checkTagged tag s = checkTagged tag t

theorem CheckedAlike.refl (s : Schema) : CheckedAlike names s s := ⟨rfl, fun _ => rfl⟩

theorem checkNode_eq_of_groups (h : ∀ f, s.group names f = t.group names f) :
    checkNode names s = checkNode names t := by
  rw [checkNode_eq_checkGroups, checkNode_eq_checkGroups, List.map_congr_left fun f _ => h f]

theorem Neglected.checkedAlike (h : Neglected s t) : CheckedAlike names s t := by
  have hrule := h.rule_eq
  have hmapping := h.mapping?_eq
  constructor
  · refine checkNode_eq_of_groups fun f => ?_
    cases f with
    | discriminator => rw [group, group, hmapping]
    | _ => cases h <;> rfl
  · intro tag
    rw [checkTagged, checkTagged, form, form, hrule]
    cases h <;> rfl

section maps
variable {a b : List (String × Schema)}

theorem checkNodes_congr (h : EntriesAlike (CheckedAlike names) a b) :
    checkNodes names a = checkNodes names b := by
  induction h with
  | nil => rfl
  | @cons x y _ _ hxy _ ih =>
    obtain ⟨_, s⟩ := x
    obtain ⟨_, t⟩ := y
    rw [checkNodes, checkNodes, hxy.2.node, ih]

theorem checkMapping_congr (h : EntriesAlike (CheckedAlike names) a b) :
    checkMapping names tag a = checkMapping names tag b := by
  induction h with
  | nil => rfl
  | @cons x y _ _ hxy _ ih =>
    obtain ⟨_, s⟩ := x
    obtain ⟨_, t⟩ := y
    rw [checkMapping, checkMapping, hxy.2.node, hxy.2.tagged, ih]

theorem hasKey_eq_contains (members : List (String × Schema)) (key : String) :
    hasKey members key = (members.map (·.1)).contains key := by
  rw [Bool.eq_iff_iff, List.contains_iff_mem]
  simp [hasKey]

theorem checkDisjoint_eq (required optional : List (String × Schema)) :
    checkDisjoint required optional =
      match (required.map (·.1)).find? (optional.map (·.1)).contains with
      | some name => .error (.repeatedProperty name)
      | none => .ok () := by
  have hkeys : ((optional.map (·.1)).contains ∘ fun entry : String × Schema => entry.1) =
      (hasKey optional ·.1) := by
    funext entry
    exact (hasKey_eq_contains optional entry.1).symm
  rw [checkDisjoint, List.find?_map, hkeys]
  cases required.find? (hasKey optional ·.1) <;> rfl

theorem checkDisjoint_congr {a' b' : List (String × Schema)}
    (ha : EntriesAlike (CheckedAlike names) a a') (hb : EntriesAlike (CheckedAlike names) b b') :
    checkDisjoint a b = checkDisjoint a' b' := by
  rw [checkDisjoint_eq, checkDisjoint_eq, ha.keys_eq, hb.keys_eq]

end maps

theorem form_eq_of_alike {C : Schema → Schema → Prop} (h : s.rule.Alike C t.rule) :
    s.form = t.form := by
  rw [form, form]
  generalize s.rule = r at h ⊢
  generalize t.rule = r' at h ⊢
  cases h <;> rfl

/-- Aligned nodes come out of every check alike if the nodes in the same places do. -/
theorem Aligned.checkedAlike (h : s.Aligned (CheckedAlike names) t) : CheckedAlike names s t := by
  have hrequired := entriesAlike_of_rel h.properties
  have hoptional := entriesAlike_of_rel h.optionalProperties
  constructor
  · refine checkNode_eq_of_groups fun f => ?_
    cases f with
    | empty => rfl
    | ref => rw [group, group, h.ref]
    | type => rw [group, group, typeName?, typeName?, h.type]
    | enum => rw [group, group, h.enum]
    | elements => exact map_eq_of_rel h.elements fun _ _ hst => hst.node
    | properties =>
      rw [group, group, isSome_eq_of_rel h.properties, isSome_eq_of_rel h.optionalProperties,
        checkDisjoint_congr hrequired hoptional, checkNodes_congr hrequired,
        checkNodes_congr hoptional]
    | values => exact map_eq_of_rel h.values fun _ _ hst => hst.node
    | discriminator =>
      refine map_eq_of_rel h.mapping? ?_
      rintro ⟨d, m⟩ ⟨e, n⟩ ⟨htag, hmapping⟩
      simp only at htag hmapping ⊢
      rw [htag, checkMapping_congr hmapping]
  · intro tag
    rw [checkTagged, checkTagged, form_eq_of_alike h.rule_alike, hasKey_eq_contains,
      hasKey_eq_contains, hasKey_eq_contains, hasKey_eq_contains, hrequired.keys_eq,
      hoptional.keys_eq]

/-! ## The check of a root -/

theorem Edited.checkedAlike (h : Edited Neglected s t) : CheckedAlike names s t :=
  h.lift .refl (fun _ _ => Neglected.checkedAlike) fun _ _ => Aligned.checkedAlike

theorem Within.checkedAlike (h : Within Neglected s t) : CheckedAlike names s t := by
  rcases h with rfl | h
  · exact .refl s
  · exact h.checkedAlike

/-- **A change of keywords without effect does not change the outcome of the check.** -/
theorem EditedOnce.check_eq (h : EditedOnce Neglected root root') : root'.check = root.check := by
  have hdefinitions : EntriesAlike (Within Neglected) (entries root.definitions)
      (entries root'.definitions) := entriesAlike_of_rel h.definitions
  have hentries : EntriesAlike (CheckedAlike (keys root.definitions)) (entries root.definitions)
      (entries root'.definitions) :=
    hdefinitions.imp fun _ _ hxy => ⟨hxy.1, hxy.2.checkedAlike⟩
  have hnames : (entries root'.definitions).map (·.1) = (entries root.definitions).map (·.1) :=
    hdefinitions.keys_eq.symm
  have hroot : checkNode (keys root.definitions) root' =
      checkNode (keys root.definitions) root := by
    cases h with
    | tree h _ => exact h.checkedAlike.node.symm
    | definition _ _ => exact checkNode_definitions root _
  rw [check, check, hnames]
  exact congrArg₂ (fun first second : Checked => first >>= fun _ => second) hroot
    (checkNodes_congr hentries).symm

end SchemaForms.Schema
