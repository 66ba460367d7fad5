import SchemaForms.Proofs.Schema.Correct

/-!
# The fault that is named

A check that fails names one fault, whatever else is wrong. `Faulty` says of each fault what is
wrong at a node of a tree. The tree is the first one that is not correct, of the root's own and
those of its definitions in their order (`fault_of_check`): a check of maps stops at the first entry
that fails (`checkNodes_eq_error`), and a node in front of whose fault the keywords are checked
hands it up as it is (`exists_faulty_of_checkNode`).
-/

namespace SchemaForms.Schema

variable {names : List String} {root s t u : Schema} {fault : SchemaFault}

/-- All nodes of the tree are correct. -/
def AllCorrect (names : List String) (s : Schema) : Prop := ∀ t, Below s t → t.Correct names

/-- The fault is at this node of the tree. -/
inductive Faulty (names : List String) (top : Schema) : SchemaFault → Schema → Prop
  | noSuchDefinition {s : Schema} {name : String} (hs : Below top s) (h : s.ref = some name)
      (hname : name ∉ names) : Faulty names top (.noSuchDefinition name) s
  | invalidType {s : Schema} {typeName : String} (hs : Below top s) (h : s.type = some typeName)
      (hne : typeName ≠ "") (hname : typeName ∉ ScalarType.all.map ScalarType.name) :
      Faulty names top (.invalidType typeName) s
  /-- The value comes a second time, and none does so in front of it. -/
  | repeatedEnumValue {s : Schema} {before after : List String} {value : String}
      (hs : Below top s) (h : s.enum = some (before ++ value :: after)) (hagain : value ∈ before)
      (hfirst : before.Nodup) : Faulty names top (.repeatedEnumValue value) s
  /-- The required property is optional too, and none in front of it is. -/
  | repeatedProperty {s sub : Schema} {before after : List (String × Schema)} {name : String}
      (hs : Below top s) (h : s.properties = some (before ++ (name, sub) :: after))
      (hagain : name ∈ keys s.optionalProperties)
      (hfirst : ∀ entry ∈ before, entry.1 ∉ keys s.optionalProperties) :
      Faulty names top (.repeatedProperty name) s
  | invalidForm {s : Schema} {f g : Form} (hs : Below top s) (hf : s.Populates f)
      (hg : s.Populates g) (hne : f ≠ g) : Faulty names top .invalidForm s
  /-- The schema under a tag value is correct as a schema, and has not the form that it needs. -/
  | nonPropertiesMapping {s t : Schema} {tag value : String} {mapping : List (String × Schema)}
      (hs : Below top s) (h : s.discriminator = some ⟨tag, some mapping⟩)
      (ht : (value, t) ∈ mapping) (hcorrect : t.AllCorrect names) (hform : t.form ≠ .properties) :
      Faulty names top .nonPropertiesMapping t
  /-- The schema under a tag value is correct as a schema, and declares the tag itself. -/
  | repeatedTag {s t : Schema} {tag value : String} {mapping : List (String × Schema)}
      (hs : Below top s) (h : s.discriminator = some ⟨tag, some mapping⟩)
      (ht : (value, t) ∈ mapping) (hcorrect : t.AllCorrect names)
      (htag : tag ∈ keys t.properties ∨ tag ∈ keys t.optionalProperties) :
      Faulty names top (.repeatedTag tag) t

/-- The faulty node is in the tree. -/
theorem Faulty.below (h : Faulty names s fault t) : Below s t := by
  cases h with
  | nonPropertiesMapping hs h ht _ _ => exact hs.tail (.tagged h ht)
  | repeatedTag hs h ht _ _ => exact hs.tail (.tagged h ht)
  | _ => assumption

/-- A fault further down is a fault of the tree. -/
theorem Faulty.of_below (hs : Below s t) (h : Faulty names t fault u) : Faulty names s fault u := by
  cases h with
  | noSuchDefinition hu h hname => exact .noSuchDefinition (hs.trans hu) h hname
  | invalidType hu h hne hname => exact .invalidType (hs.trans hu) h hne hname
  | repeatedEnumValue hu h hagain hfirst => exact .repeatedEnumValue (hs.trans hu) h hagain hfirst
  | repeatedProperty hu h hagain hfirst => exact .repeatedProperty (hs.trans hu) h hagain hfirst
  | invalidForm hu hf hg hne => exact .invalidForm (hs.trans hu) hf hg hne
  | nonPropertiesMapping hu h ht hcorrect hform =>
    exact .nonPropertiesMapping (hs.trans hu) h ht hcorrect hform
  | repeatedTag hu h ht hcorrect htag => exact .repeatedTag (hs.trans hu) h ht hcorrect htag

theorem checkNode_eq_ok_iff_allCorrect : checkNode names s = .ok () ↔ s.AllCorrect names := by
  refine ⟨fun h t ht => ?_, checkNode_of_correct⟩
  have hpasses : checkNode names t = .ok () := by
    induction ht with
    | refl => exact h
    | tail _ hchild ih => exact (checkNode_eq_ok_iff.mp ih).2 _ hchild
  exact .of_checkNode hpasses

/-! ## Checks that fail -/

theorem bind_eq_error_iff {first second : Checked} :
    (first >>= fun _ => second) = .error fault ↔
      first = .error fault ∨ first = .ok () ∧ second = .error fault := by
  cases first with
  | error _ => simp [bind, Except.bind]
  | ok _ => simp [bind, Except.bind]

theorem checkRef_eq_error {name : String} (h : checkRef names name = .error fault) :
    fault = .noSuchDefinition name ∧ name ∉ names := by
  rw [checkRef] at h
  split_ifs at h with hmem
  cases h
  exact ⟨rfl, by simpa using hmem⟩

theorem checkType_eq_error {typeName : String} (h : checkType typeName = .error fault) :
    fault = .invalidType typeName ∧ typeName ∉ ScalarType.all.map ScalarType.name := by
  rw [checkType] at h
  split_ifs at h with hname
  cases h
  exact ⟨rfl, (ofName?_isSome_iff typeName).not.mp hname⟩

/-- The value that is named was seen before, and no value in front of it was. -/
theorem checkEnum_eq_error {seen values : List String} (h : checkEnum seen values = .error fault) :
    ∃ before value after, fault = .repeatedEnumValue value ∧ values = before ++ value :: after ∧
      (value ∈ seen ∨ value ∈ before) ∧ before.Nodup ∧ ∀ x ∈ before, x ∉ seen := by
  induction values generalizing seen with
  | nil => cases h
  | cons first rest ih =>
    rw [checkEnum] at h
    split_ifs at h with hseen
    · cases h
      exact ⟨[], first, rest, rfl, rfl, .inl (by simpa using hseen), .nil, by simp⟩
    · obtain ⟨before, value, after, rfl, rfl, hagain, hnodup, hbefore⟩ := ih h
      refine ⟨first :: before, value, after, rfl, rfl, ?_, ?_, ?_⟩
      · rcases hagain with hmem | hmem
        · rcases List.mem_cons.mp hmem with rfl | hmem
          · exact .inr List.mem_cons_self
          · exact .inl hmem
        · exact .inr (List.mem_cons_of_mem _ hmem)
      · exact List.nodup_cons.mpr ⟨fun hmem => hbefore first hmem List.mem_cons_self, hnodup⟩
      · refine List.forall_mem_cons.mpr ⟨by simpa using hseen, fun x hx hmem => ?_⟩
        exact hbefore x hx (List.mem_cons_of_mem _ hmem)

theorem checkDisjoint_eq_error {required optional : List (String × Schema)}
    (h : checkDisjoint required optional = .error fault) :
    ∃ before name sub after, fault = .repeatedProperty name ∧
      required = before ++ (name, sub) :: after ∧ name ∈ optional.map (·.1) ∧
      ∀ entry ∈ before, entry.1 ∉ optional.map (·.1) := by
  have hkey : ∀ key, hasKey optional key = true ↔ key ∈ optional.map (·.1) := by simp [hasKey]
  rw [checkDisjoint] at h
  split at h
  case h_1 name sub hfind =>
    cases h
    obtain ⟨hname, before, after, hsplit, hbefore⟩ := List.find?_eq_some_iff_append.mp hfind
    refine ⟨before, name, sub, after, rfl, hsplit, (hkey name).mp hname, fun entry hentry => ?_⟩
    rw [← hkey]
    simpa using hbefore entry hentry
  case h_2 => cases h

/-- The first entry that fails is the one that is told. -/
theorem checkNodes_eq_error {map : List (String × Schema)}
    (h : checkNodes names map = .error fault) :
    ∃ before name t after, map = before ++ (name, t) :: after ∧
      (∀ entry ∈ before, checkNode names entry.2 = .ok ()) ∧ checkNode names t = .error fault := by
  induction map with
  | nil => cases h
  | cons entry rest ih =>
    obtain ⟨key, s⟩ := entry
    rw [checkNodes] at h
    rcases bind_eq_error_iff.mp h with hs | ⟨hs, hrest⟩
    · exact ⟨[], key, s, rest, rfl, by simp, hs⟩
    · obtain ⟨before, name, t, after, rfl, hbefore, ht⟩ := ih hrest
      exact ⟨(key, s) :: before, name, t, after, rfl, List.forall_mem_cons.mpr ⟨hs, hbefore⟩, ht⟩

theorem checkTagged_eq_error {tag : String} (h : checkTagged tag t = .error fault) :
    fault = .nonPropertiesMapping ∧ t.form ≠ .properties ∨
      fault = .repeatedTag tag ∧ (tag ∈ keys t.properties ∨ tag ∈ keys t.optionalProperties) := by
  rw [checkTagged] at h
  split_ifs at h with hform hkey
  · cases h
    exact .inl ⟨rfl, hform⟩
  · cases h
    rw [Bool.or_eq_true, hasKey_entries, hasKey_entries] at hkey
    exact .inr ⟨rfl, hkey⟩

theorem checkMapping_eq_error {tag : String} {mapping : List (String × Schema)}
    (h : checkMapping names tag mapping = .error fault) :
    ∃ value t, (value, t) ∈ mapping ∧ (checkNode names t = .error fault ∨
      checkNode names t = .ok () ∧ checkTagged tag t = .error fault) := by
  induction mapping with
  | nil => cases h
  | cons entry rest ih =>
    obtain ⟨key, s⟩ := entry
    rw [checkMapping] at h
    rcases bind_eq_error_iff.mp h with hs | ⟨hs, h⟩
    · exact ⟨key, s, List.mem_cons_self, .inl hs⟩
    · rcases bind_eq_error_iff.mp h with htagged | ⟨-, hrest⟩
      · exact ⟨key, s, List.mem_cons_self, .inr ⟨hs, htagged⟩⟩
      · obtain ⟨value, t, hmem, ht⟩ := ih hrest
        exact ⟨value, t, List.mem_cons_of_mem _ hmem, ht⟩

/-- Behind a group that is present only the presence of another one is a fault. -/
theorem checkGroups_true_eq_error {groups : List (Option Checked)}
    (h : checkGroups true groups = .error fault) : fault = .invalidForm := by
  induction groups with
  | nil => cases h
  | cons g rest ih =>
    cases g with
    | none => exact ih h
    | some c =>
      cases h
      rfl

/-- The fault is that of a group, or that there are two of them. -/
theorem checkGroups_false_eq_error {groups : List (Option Checked)}
    (h : checkGroups false groups = .error fault) :
    some (.error fault) ∈ groups ∨
      fault = .invalidForm ∧ ¬ groups.Pairwise fun g h => g = none ∨ h = none := by
  induction groups with
  | nil => cases h
  | cons g rest ih =>
    cases g with
    | none =>
      rcases ih h with hmem | ⟨hfault, hpairwise⟩
      · exact .inl (List.mem_cons_of_mem _ hmem)
      · exact .inr ⟨hfault, fun hp => hpairwise (List.pairwise_cons.mp hp).2⟩
    | some c =>
      have hsplit : checkGroups false (some c :: rest) =
          (c >>= fun _ => checkGroups true rest) := rfl
      rw [hsplit] at h
      rcases bind_eq_error_iff.mp h with hc | ⟨-, hrest⟩
      · exact .inl (hc ▸ List.mem_cons_self)
      · refine .inr ⟨checkGroups_true_eq_error hrest, fun hp => ?_⟩
        -- All other groups would have to be absent, and then they would pass.
        have hnone : ∀ g ∈ rest, g = none := fun g hg => by
          simpa using (List.pairwise_cons.mp hp).1 g hg
        rw [(checkGroups_true_eq_ok_iff rest).mpr hnone] at hrest
        cases hrest

/-! ## A node that fails -/

/-- The fault of a node that fails is that of one of its groups, or that it has several. -/
theorem group_eq_error_of_checkNode (h : checkNode names s = .error fault) :
    (∃ f, s.group names f = some (.error fault)) ∨
      fault = .invalidForm ∧ ∃ f g, s.Populates f ∧ s.Populates g ∧ f ≠ g := by
  rw [checkNode_eq_checkGroups] at h
  rcases checkGroups_false_eq_error h with hmem | ⟨hfault, hpairwise⟩
  · obtain ⟨f, -, hf⟩ := List.mem_map.mp hmem
    exact .inl ⟨f, hf⟩
  · rw [List.pairwise_map, ← sole_iff_pairwise] at hpairwise
    refine .inr ⟨hfault, ?_⟩
    by_contra hnone
    push Not at hnone
    exact hpairwise hnone

/-- A node below that fails hands its fault up. -/
theorem Child.exists_faulty (ht : Child s t) (h : ∃ u, Faulty names t fault u) :
    ∃ u, Faulty names s fault u :=
  h.imp fun _ hu => hu.of_below (.single ht)

theorem eq_some_of_entries {map : Option (List (String × Schema))} {entry : String × Schema}
    {before after : List (String × Schema)} (h : entries map = before ++ entry :: after) :
    map = some (before ++ entry :: after) := by
  cases map with
  | none => simp [entries] at h
  | some map => exact congrArg some h

/-- **A node that fails has the fault somewhere in its tree.** -/
theorem exists_faulty_of_checkNode (h : checkNode names s = .error fault) :
    ∃ t, Faulty names s fault t := by
  induction s using child_induction with
  | node s ih =>
  rcases group_eq_error_of_checkNode h with ⟨f, hf⟩ | ⟨rfl, f, g, hf, hg, hne⟩
  · cases f with
    | empty => cases hf
    | ref =>
      obtain ⟨name, href, hfails⟩ := Option.map_eq_some_iff.mp hf
      obtain ⟨rfl, hname⟩ := checkRef_eq_error hfails
      exact ⟨s, .noSuchDefinition .refl href hname⟩
    | type =>
      obtain ⟨typeName, htype, hfails⟩ := Option.map_eq_some_iff.mp hf
      obtain ⟨rfl, hname⟩ := checkType_eq_error hfails
      obtain ⟨htype, hne⟩ := typeName?_eq_some_iff.mp htype
      exact ⟨s, .invalidType .refl htype hne hname⟩
    | enum =>
      obtain ⟨values, henum, hvalues⟩ := Option.map_eq_some_iff.mp hf
      obtain ⟨before, value, after, rfl, rfl, hagain, hnodup, -⟩ := checkEnum_eq_error hvalues
      exact ⟨s, .repeatedEnumValue .refl henum (by simpa using hagain) hnodup⟩
    | elements =>
      obtain ⟨item, hitem, hfails⟩ := Option.map_eq_some_iff.mp hf
      have hchild : Child s item := .elements hitem
      exact hchild.exists_faulty (ih item hchild hfails)
    | properties =>
      rw [group] at hf
      split_ifs at hf
      rcases bind_eq_error_iff.mp (Option.some.inj hf) with hdisjoint | ⟨-, hbelow⟩
      · obtain ⟨before, name, sub, after, rfl, hsplit, hagain, hfirst⟩ :=
          checkDisjoint_eq_error hdisjoint
        exact ⟨s, .repeatedProperty .refl (eq_some_of_entries hsplit) hagain hfirst⟩
      · rcases bind_eq_error_iff.mp hbelow with hfails | ⟨-, hfails⟩
        · obtain ⟨before, name, t, after, hsplit, -, ht⟩ := checkNodes_eq_error hfails
          have hchild : Child s t := .required (eq_some_of_entries hsplit) List.mem_append_cons_self
          exact hchild.exists_faulty (ih t hchild ht)
        · obtain ⟨before, name, t, after, hsplit, -, ht⟩ := checkNodes_eq_error hfails
          have hchild : Child s t := .optional (eq_some_of_entries hsplit) List.mem_append_cons_self
          exact hchild.exists_faulty (ih t hchild ht)
    | values =>
      obtain ⟨member, hmember, hfails⟩ := Option.map_eq_some_iff.mp hf
      have hchild : Child s member := .values hmember
      exact hchild.exists_faulty (ih member hchild hfails)
    | discriminator =>
      obtain ⟨⟨⟨tag, m⟩, mapping⟩, hmapping, hfails⟩ := Option.map_eq_some_iff.mp hf
      obtain ⟨hd, hm⟩ := mapping?_eq_some_iff.mp hmapping
      simp only at hm
      subst hm
      obtain ⟨value, t, hmem, ht⟩ := checkMapping_eq_error hfails
      have hchild : Child s t := .tagged hd hmem
      rcases ht with ht | ⟨hpasses, htagged⟩
      · exact hchild.exists_faulty (ih t hchild ht)
      · have hcorrect := checkNode_eq_ok_iff_allCorrect.mp hpasses
        rcases checkTagged_eq_error htagged with ⟨rfl, hform⟩ | ⟨rfl, htag⟩
        · exact ⟨t, .nonPropertiesMapping .refl hd hmem hcorrect hform⟩
        · exact ⟨t, .repeatedTag .refl hd hmem hcorrect htag⟩
  · exact ⟨s, .invalidForm .refl hf hg hne⟩

/-! ## The whole check -/

/-- The tree is the first one that is not correct: that of the root, or else that of a definition
behind none that is not. -/
inductive FirstIncorrect (root : Schema) : Schema → Prop
  | root (h : ¬ root.AllCorrect (keys root.definitions)) : FirstIncorrect root root
  | definition {before after : List (String × Schema)} {name : String} {s : Schema}
      (hroot : root.AllCorrect (keys root.definitions))
      (hsplit : entries root.definitions = before ++ (name, s) :: after)
      (hbefore : ∀ entry ∈ before, entry.2.AllCorrect (keys root.definitions))
      (h : ¬ s.AllCorrect (keys root.definitions)) : FirstIncorrect root s

theorem not_allCorrect_of_checkNode (h : checkNode names s = .error fault) :
    ¬ s.AllCorrect names := by
  rw [← checkNode_eq_ok_iff_allCorrect, h]
  simp

/-- **The fault that is named is there, in the first tree that is not correct**: in the root's own
tree if that has an incorrect node, and otherwise in the tree of the first definition that has
one. -/
theorem fault_of_check (root : Schema) (fault : SchemaFault) (h : root.check = .error fault) :
    ∃ top t, FirstIncorrect root top ∧ Faulty (keys root.definitions) top fault t ∧
      CheckedNode root t := by
  have hcheck : (checkNode (keys root.definitions) root >>= fun _ =>
      checkNodes (keys root.definitions) (entries root.definitions)) = .error fault := h
  rcases bind_eq_error_iff.mp hcheck with hroot | ⟨hroot, hdefinitions⟩
  · obtain ⟨t, ht⟩ := exists_faulty_of_checkNode hroot
    exact ⟨root, t, .root (not_allCorrect_of_checkNode hroot), ht,
      CheckedNode.root.of_below ht.below⟩
  · obtain ⟨before, name, s, after, hsplit, hbefore, hs⟩ := checkNodes_eq_error hdefinitions
    obtain ⟨t, ht⟩ := exists_faulty_of_checkNode hs
    have hdefinition : (name, s) ∈ entries root.definitions := by simp [hsplit]
    refine ⟨s, t, .definition (checkNode_eq_ok_iff_allCorrect.mp hroot) hsplit ?_
      (not_allCorrect_of_checkNode hs), ht, (CheckedNode.definition hdefinition).of_below ht.below⟩
    exact fun entry hentry => checkNode_eq_ok_iff_allCorrect.mp (hbefore entry hentry)

/-- A root with faults in two of its definitions is told the one of the first. -/
theorem fault_of_first_definition :
    let root : Schema :=
      { definitions := some [("letters", { elements := some { enum := some ["a", "b", "a"] } }),
          ("number", { type := some "int" })]
        ref := some "letters" }
    root.check = .error (.repeatedEnumValue "a") ∧
      ∃ top t, FirstIncorrect root top ∧
        Faulty ["letters", "number"] top (.repeatedEnumValue "a") t ∧ CheckedNode root t := by
  intro root
  have hcheck : root.check = .error (.repeatedEnumValue "a") := by rfl
  exact ⟨hcheck, fault_of_check root (.repeatedEnumValue "a") hcheck⟩

end SchemaForms.Schema
