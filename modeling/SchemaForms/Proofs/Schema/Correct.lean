import Mathlib.Data.List.Nodup
import Mathlib.Data.List.Pairwise
import SchemaForms.Proofs.Schema.Tree

/-!
# Correct schemas

`Correct` says of one node, without an order of checks, what a correct node is. `Schema.check` goes
through a root and its definitions in one pass and stops at the first fault; it passes exactly when
every checked node is correct (`check_eq_ok_iff_correct`). The step is `checkNode_eq_ok_iff`: a
node passes when it is correct itself and the nodes directly below it pass.
-/

namespace SchemaForms.Schema

variable {names : List String} {s : Schema}

/-- A correct node, given the names that can be referred to. -/
structure Correct (names : List String) (s : Schema) : Prop where
  /-- The node has the keywords of one form at most. -/
  sole : s.Sole
  ref : ∀ name, s.ref = some name → name ∈ names
  type : ∀ typeName, s.type = some typeName → typeName ≠ "" →
    typeName ∈ ScalarType.all.map ScalarType.name
  enum : ∀ values, s.enum = some values → values.Nodup
  disjoint : ∀ name ∈ keys s.properties, name ∉ keys s.optionalProperties
  /-- A schema under a tag has properties and nothing else, and leaves the tag to the union. -/
  tagged : ∀ tag mapping, s.discriminator = some ⟨tag, some mapping⟩ →
    ∀ value t, (value, t) ∈ mapping →
      t.Populates .properties ∧ (∀ f, t.Populates f → f = .properties) ∧
        tag ∉ keys t.properties ∧ tag ∉ keys t.optionalProperties

/-! ## One group -/

theorem bind_eq_ok_iff {first second : Checked} :
    (first >>= fun _ => second) = .ok () ↔ first = .ok () ∧ second = .ok () := by
  cases first with
  | error fault => simp [bind, Except.bind]
  | ok _ => simp [bind, Except.bind]

theorem ok_bind (next : Checked) : ((.ok () : Checked) >>= fun _ => next) = next := rfl

theorem bind_ok (first : Checked) : (first >>= fun _ => (.ok () : Checked)) = first := by
  cases first <;> rfl

theorem checkRef_eq_ok_iff (name : String) : checkRef names name = .ok () ↔ name ∈ names := by
  simp [checkRef]

theorem ofName?_isSome_iff (typeName : String) :
    (ScalarType.ofName? typeName).isSome ↔ typeName ∈ ScalarType.all.map ScalarType.name := by
  simp [ScalarType.ofName?]

theorem checkType_eq_ok_iff (typeName : String) :
    checkType typeName = .ok () ↔ typeName ∈ ScalarType.all.map ScalarType.name := by
  rw [← ofName?_isSome_iff, checkType]
  split <;> simp_all

theorem checkEnum_eq_ok_iff (seen values : List String) :
    checkEnum seen values = .ok () ↔ values.Nodup ∧ ∀ value ∈ values, value ∉ seen := by
  induction values generalizing seen with
  | nil => simp [checkEnum]
  | cons value rest ih =>
    rw [checkEnum]
    by_cases hseen : value ∈ seen
    · simp [hseen]
    · rw [if_neg (by simpa using hseen), ih, List.nodup_cons]
      constructor
      · rintro ⟨hnodup, hrest⟩
        refine ⟨⟨fun hmem => hrest value hmem (by simp), hnodup⟩, ?_⟩
        intro x hx
        rcases List.mem_cons.mp hx with rfl | hx
        · exact hseen
        · exact fun h => hrest x hx (by simp [h])
      · rintro ⟨⟨hnot, hnodup⟩, hall⟩
        refine ⟨hnodup, fun x hx => ?_⟩
        rw [List.mem_cons, not_or]
        exact ⟨fun he => hnot (he ▸ hx), hall x (by simp [hx])⟩

theorem checkDisjoint_eq_ok_iff (required optional : List (String × Schema)) :
    checkDisjoint required optional = .ok () ↔
      ∀ name ∈ required.map (·.1), name ∉ optional.map (·.1) := by
  rw [checkDisjoint]
  split
  case h_1 name t hfind =>
    have hmem := List.mem_of_find?_eq_some hfind
    have hkey := List.find?_some hfind
    simp only [hasKey, List.any_eq_true, decide_eq_true_eq] at hkey
    obtain ⟨entry, hentry, heq⟩ := hkey
    simp only [reduceCtorEq, false_iff, not_forall, not_not]
    exact ⟨name, List.mem_map_of_mem hmem, heq ▸ List.mem_map_of_mem hentry⟩
  case h_2 hfind =>
    simp only [List.find?_eq_none, hasKey, List.any_eq_true, decide_eq_true_eq] at hfind
    simp only [true_iff, List.mem_map]
    rintro name ⟨entry, hentry, rfl⟩ ⟨other, hother, heq⟩
    exact hfind entry hentry ⟨other, hother, heq⟩

theorem checkNodes_eq_ok_iff (map : List (String × Schema)) :
    checkNodes names map = .ok () ↔ ∀ name t, (name, t) ∈ map → checkNode names t = .ok () := by
  induction map with
  | nil => simp [checkNodes]
  | cons entry rest ih =>
    obtain ⟨key, t⟩ := entry
    rw [checkNodes, bind_eq_ok_iff, ih]
    constructor
    · rintro ⟨ht, hrest⟩ name u hu
      rcases List.mem_cons.mp hu with heq | hu
      · cases heq
        exact ht
      · exact hrest name u hu
    · intro h
      exact ⟨h key t (by simp), fun name u hu => h name u (by simp [hu])⟩

theorem checkTagged_eq_ok_iff (tag : String) (t : Schema) :
    checkTagged tag t = .ok () ↔
      t.form = .properties ∧ tag ∉ keys t.properties ∧ tag ∉ keys t.optionalProperties := by
  rw [checkTagged]
  simp only [← hasKey_entries]
  split_ifs with hform hkey
  · simp [hform]
  · simp only [Bool.or_eq_true] at hkey
    simp only [false_iff]
    tauto
  · simp only [Bool.or_eq_true, not_or] at hkey
    simp only [true_iff]
    exact ⟨not_not.mp hform, hkey⟩

theorem checkMapping_eq_ok_iff (tag : String) (mapping : List (String × Schema)) :
    checkMapping names tag mapping = .ok () ↔
      ∀ value t, (value, t) ∈ mapping →
        checkNode names t = .ok () ∧ checkTagged tag t = .ok () := by
  induction mapping with
  | nil => simp [checkMapping]
  | cons entry rest ih =>
    obtain ⟨key, t⟩ := entry
    rw [checkMapping, bind_eq_ok_iff, bind_eq_ok_iff, ih]
    constructor
    · rintro ⟨ht, htagged, hrest⟩ value u hu
      rcases List.mem_cons.mp hu with heq | hu
      · cases heq
        exact ⟨ht, htagged⟩
      · exact hrest value u hu
    · intro h
      have ht := h key t (by simp)
      exact ⟨ht.1, ht.2, fun value u hu => h value u (by simp [hu])⟩

/-! ## One node -/

/-- The check of the keywords of one form, if the node populates it. -/
def group (names : List String) (s : Schema) : Form → Option Checked
  | .empty => none
  | .ref => s.ref.map (checkRef names)
  | .type => s.typeName?.map checkType
  | .enum => s.enum.map (checkEnum [])
  | .elements => s.elements.map (checkNode names)
  | .properties =>
    if s.properties.isSome || s.optionalProperties.isSome then some do
      checkDisjoint (entries s.properties) (entries s.optionalProperties)
      checkNodes names (entries s.properties)
      checkNodes names (entries s.optionalProperties)
    else none
  | .values => s.values.map (checkNode names)
  | .discriminator => s.mapping?.map fun (d, mapping) => checkMapping names d.tag mapping

/-- The forms in the order in which their keywords are checked. -/
def checkedForms : List Form :=
  [.ref, .type, .enum, .elements, .properties, .values, .discriminator]

theorem checkDisjoint_nil (required : List (String × Schema)) :
    checkDisjoint required [] = .ok () := by
  simp [checkDisjoint_eq_ok_iff]

theorem checkNode_eq_checkGroups (names : List String) (s : Schema) :
    checkNode names s = checkGroups false (checkedForms.map (s.group names)) := by
  obtain ⟨definitions, ref, type, enum, elements, properties, optional, values, discriminator⟩ := s
  rw [checkNode.eq_def]
  simp only [checkedForms, List.map_cons, List.map_nil, group, typeName?]
  congr 5
  · cases elements <;> rfl
  congr 1
  · rcases properties with _ | required <;> rcases optional with _ | optional
    · rfl
    · rfl
    · simp only [Option.isSome_some, Bool.true_or, if_true, entries, Option.getD_some,
        Option.getD_none, checkDisjoint_nil, checkNodes, ok_bind, bind_ok]
    · rfl
  congr 1
  · cases values <;> rfl
  congr 1
  · rcases discriminator with _ | ⟨tag, _ | mapping⟩ <;> rfl

/-- The definitions of a node are no part of its check. -/
theorem checkNode_definitions (s : Schema) (definitions : Option (List (String × Schema))) :
    checkNode names { s with definitions := definitions } = checkNode names s := by
  rw [checkNode_eq_checkGroups, checkNode_eq_checkGroups]
  rfl

theorem group_ne_none_iff (names : List String) (f : Form) :
    s.group names f ≠ none ↔ s.Populates f := by
  cases f with
  | type =>
    rw [← not_iff_not, ← typeName?_eq_none_iff]
    simp [group]
  | properties => cases hr : s.properties <;> cases ho : s.optionalProperties <;>
      simp [group, Populates, hr, ho]
  | discriminator =>
    rw [← not_iff_not, ← mapping?_eq_none_iff]
    simp [group]
  | _ => simp [group, Populates, Option.ne_none_iff_exists']

theorem checkGroups_true_eq_ok_iff (groups : List (Option Checked)) :
    checkGroups true groups = .ok () ↔ ∀ g ∈ groups, g = none := by
  induction groups with
  | nil => simp [checkGroups]
  | cons g rest ih => cases g <;> simp [checkGroups, ih]

theorem checkGroups_false_eq_ok_iff (groups : List (Option Checked)) :
    checkGroups false groups = .ok () ↔
      groups.Pairwise (fun g h => g = none ∨ h = none) ∧ ∀ c, some c ∈ groups → c = .ok () := by
  induction groups with
  | nil => simp [checkGroups]
  | cons g rest ih =>
    cases g with
    | none => simp [checkGroups, ih]
    | some c =>
      have hsplit : checkGroups false (some c :: rest) =
          (c >>= fun _ => checkGroups true rest) := rfl
      rw [hsplit, bind_eq_ok_iff, checkGroups_true_eq_ok_iff, List.pairwise_cons]
      constructor
      · rintro ⟨hc, hrest⟩
        refine ⟨⟨fun h hh => .inr (hrest h hh), ?_⟩, ?_⟩
        · exact List.pairwise_of_forall_mem_list fun g hg _ _ => .inl (hrest g hg)
        · intro d hd
          rcases List.mem_cons.mp hd with heq | hd
          · cases heq
            exact hc
          · cases hrest _ hd
      · rintro ⟨⟨hnone, _⟩, hall⟩
        refine ⟨hall c (by simp), fun h hh => ?_⟩
        simpa using hnone h hh

theorem mem_checkedForms {f : Form} (h : s.Populates f) : f ∈ checkedForms := by
  cases f with
  | empty => exact absurd h id
  | _ => simp [checkedForms]

/-- No two groups are present exactly when all but one of them are absent, pair by pair. -/
theorem sole_iff_pairwise (names : List String) :
    s.Sole ↔ checkedForms.Pairwise fun f g => s.group names f = none ∨ s.group names g = none := by
  constructor
  · intro hs
    refine List.Nodup.pairwise_of_forall_ne (by decide) fun f _ g _ hne => ?_
    by_contra hboth
    rw [not_or] at hboth
    have hf := (group_ne_none_iff names f).mp hboth.1
    have hg := (group_ne_none_iff names g).mp hboth.2
    exact hne (hs f g hf hg)
  · intro hp f g hf hg
    by_contra hne
    have : Std.Symm fun f g => s.group names f = none ∨ s.group names g = none :=
      ⟨fun _ _ => Or.symm⟩
    rcases hp.forall (mem_checkedForms hf) (mem_checkedForms hg) hne with h | h
    · exact (group_ne_none_iff names f).mpr hf h
    · exact (group_ne_none_iff names g).mpr hg h

theorem checkNode_eq_ok_iff_groups :
    checkNode names s = .ok () ↔
      s.Sole ∧ ∀ f c, s.group names f = some c → c = .ok () := by
  rw [checkNode_eq_checkGroups, checkGroups_false_eq_ok_iff, List.pairwise_map,
    sole_iff_pairwise names]
  refine and_congr_right fun _ => ⟨fun h f c hc => ?_, fun h c hc => ?_⟩
  · have hf : s.Populates f := (group_ne_none_iff names f).mp (by simp [hc])
    exact h c (hc ▸ List.mem_map_of_mem (mem_checkedForms hf))
  · obtain ⟨f, _, hf⟩ := List.mem_map.mp hc
    exact h f c hf

theorem group_properties_ok_iff :
    (∀ c, s.group names .properties = some c → c = .ok ()) ↔
      (∀ name ∈ keys s.properties, name ∉ keys s.optionalProperties) ∧
        checkNodes names (entries s.properties) = .ok () ∧
        checkNodes names (entries s.optionalProperties) = .ok () := by
  rw [group]
  split_ifs with h
  · simp only [Option.some.injEq, forall_eq', bind_eq_ok_iff, checkDisjoint_eq_ok_iff, keys]
  · simp only [Bool.or_eq_true, not_or, Option.not_isSome_iff_eq_none] at h
    simp [h, keys, entries, checkNodes]

/-- A node passes when it is correct and the nodes directly below it pass. -/
theorem checkNode_eq_ok_iff :
    checkNode names s = .ok () ↔
      s.Correct names ∧ ∀ t, Child s t → checkNode names t = .ok () := by
  rw [checkNode_eq_ok_iff_groups]
  constructor
  · rintro ⟨hs, hg⟩
    obtain ⟨hdisjoint, hrequired, hoptional⟩ := group_properties_ok_iff.mp (hg .properties)
    have hmapping : ∀ tag mapping, s.discriminator = some ⟨tag, some mapping⟩ →
        checkMapping names tag mapping = .ok () := fun tag mapping h =>
      hg .discriminator _ (by simp [group, mapping?, h])
    have hchild : ∀ t, Child s t → checkNode names t = .ok () := by
      intro t ht
      cases ht with
      | elements h => exact hg .elements _ (by simp [group, h])
      | required h ht =>
        exact (checkNodes_eq_ok_iff _).mp hrequired _ t (by simpa [h, entries] using ht)
      | optional h ht =>
        exact (checkNodes_eq_ok_iff _).mp hoptional _ t (by simpa [h, entries] using ht)
      | values h => exact hg .values _ (by simp [group, h])
      | tagged h ht => exact ((checkMapping_eq_ok_iff _ _).mp (hmapping _ _ h) _ t ht).1
    refine ⟨⟨hs, ?_, ?_, ?_, hdisjoint, ?_⟩, hchild⟩
    · intro name h
      exact (checkRef_eq_ok_iff name).mp (hg .ref _ (by simp [group, h]))
    · intro typeName h hne
      have htype := typeName?_eq_some_iff.mpr ⟨h, hne⟩
      exact (checkType_eq_ok_iff typeName).mp (hg .type _ (by simp [group, htype]))
    · intro values h
      exact ((checkEnum_eq_ok_iff [] values).mp (hg .enum _ (by simp [group, h]))).1
    · intro tag mapping h value t ht
      have htagged := ((checkMapping_eq_ok_iff _ _).mp (hmapping _ _ h) value t ht).2
      obtain ⟨hform, hnotRequired, hnotOptional⟩ := (checkTagged_eq_ok_iff tag t).mp htagged
      have hsole : t.Sole := (checkNode_eq_ok_iff_groups.mp (hchild t (.tagged h ht))).1
      have hpopulates : t.Populates .properties := populates_of_form_eq hform (by decide)
      exact ⟨hpopulates, fun f hf => hsole f _ hf hpopulates, hnotRequired, hnotOptional⟩
  · rintro ⟨hc, hchild⟩
    refine ⟨hc.sole, fun f => ?_⟩
    cases f with
    | empty => simp [group]
    | ref => simpa [group, checkRef_eq_ok_iff] using hc.ref
    | type =>
      intro c h
      obtain ⟨typeName, htype, rfl⟩ := Option.map_eq_some_iff.mp h
      obtain ⟨htype, hne⟩ := typeName?_eq_some_iff.mp htype
      exact (checkType_eq_ok_iff typeName).mpr (hc.type typeName htype hne)
    | enum => simpa [group, checkEnum_eq_ok_iff] using hc.enum
    | elements => simpa [group] using fun item h => hchild item (.elements h)
    | properties =>
      rw [group_properties_ok_iff, checkNodes_eq_ok_iff, checkNodes_eq_ok_iff]
      refine ⟨hc.disjoint, fun name t ht => ?_, fun name t ht => ?_⟩
      · obtain ⟨map, hmap, ht⟩ := mem_entries.mp ht
        exact hchild t (.required hmap ht)
      · obtain ⟨map, hmap, ht⟩ := mem_entries.mp ht
        exact hchild t (.optional hmap ht)
    | values => simpa [group] using fun member h => hchild member (.values h)
    | discriminator =>
      intro c h
      obtain ⟨⟨⟨tag, m⟩, mapping⟩, hmapping, rfl⟩ := Option.map_eq_some_iff.mp h
      obtain ⟨hd, hm⟩ := mapping?_eq_some_iff.mp hmapping
      simp only at hm
      subst hm
      refine (checkMapping_eq_ok_iff tag mapping).mpr fun value t ht => ?_
      obtain ⟨hpopulates, honly, hkeys⟩ := hc.tagged tag mapping hd value t ht
      have ht := hchild t (.tagged hd ht)
      have hsole : t.Sole := (checkNode_eq_ok_iff_groups.mp ht).1
      exact ⟨ht, (checkTagged_eq_ok_iff tag t).mpr ⟨hsole.form_eq hpopulates, hkeys⟩⟩

/-! ## The whole check -/

theorem Correct.of_checkNode (h : checkNode names s = .ok ()) : s.Correct names :=
  (checkNode_eq_ok_iff.mp h).1

theorem checkNode_of_correct (h : ∀ t, Below s t → t.Correct names) :
    checkNode names s = .ok () := by
  induction s using child_induction with
  | node s ih =>
    refine checkNode_eq_ok_iff.mpr ⟨h s .refl, fun t ht => ih t ht fun u hu => ?_⟩
    exact h u (.head ht hu)

/-- A root passes exactly when its own tree and the trees of its definitions do. -/
theorem check_eq_ok_iff {root : Schema} :
    root.check = .ok () ↔ checkNode (keys root.definitions) root = .ok () ∧
      ∀ name s, (name, s) ∈ entries root.definitions →
        checkNode (keys root.definitions) s = .ok () := by
  rw [← checkNodes_eq_ok_iff]
  exact bind_eq_ok_iff

/-- A root passes exactly when every checked node does: the tree below a node that passes is passed
through on the way. -/
theorem check_eq_ok_iff_checkNode {root : Schema} :
    root.check = .ok () ↔
      ∀ s, CheckedNode root s → checkNode (keys root.definitions) s = .ok () := by
  rw [check_eq_ok_iff]
  constructor
  · rintro ⟨hroot, hdefinitions⟩ s hs
    induction hs with
    | root => exact hroot
    | definition h => exact hdefinitions _ _ h
    | child _ hchild ih => exact (checkNode_eq_ok_iff.mp ih).2 _ hchild
  · exact fun h => ⟨h root .root, fun name s hs => h s (.definition hs)⟩

/-- A checked node is correct, by the names that the root defines. -/
theorem CheckedNode.correct {root : Schema} (hs : CheckedNode root s)
    (hcheck : root.check = .ok ()) : s.Correct (keys root.definitions) :=
  .of_checkNode (check_eq_ok_iff_checkNode.mp hcheck s hs)

/-- **A root schema passes exactly when every checked node is correct**: its own tree and the trees
of its definitions, where references go to the definitions of the root only. -/
theorem check_eq_ok_iff_correct (root : Schema) :
    root.check = .ok () ↔ ∀ s, CheckedNode root s → s.Correct (keys root.definitions) := by
  rw [check_eq_ok_iff_checkNode]
  constructor
  · exact fun h s hs => .of_checkNode (h s hs)
  · intro h s hs
    exact checkNode_of_correct fun t ht => h t (hs.of_below ht)

/-- Linked lists of small whole numbers: the definition of a node refers to itself. -/
def linkedList : Schema where
  definitions := some [("node",
    { properties := some [("item", { type := some "int8" })]
      optionalProperties := some [("next", { ref := some "node" })] })]
  ref := some "node"

example : linkedList.check = .ok () := by rfl

/-- A member to judge, and then one by a definition that refers to itself at once. -/
def selfReferring : Schema where
  definitions := some [("self", { ref := some "self" })]
  properties := some [("item", { type := some "int8" }), ("rest", { ref := some "self" })]

/-- Lists of shapes, told apart by their kind: circles, and pairs of shapes. -/
def shapes : Schema where
  definitions := some [("shape", { discriminator := some ⟨"kind", some [
    ("circle", { properties := some [("radius", { type := some "uint8" })] }),
    ("pair", { properties := some [("first", { ref := some "shape" }),
      ("second", { ref := some "shape" })] })]⟩ })]
  elements := some { ref := some "shape" }

end SchemaForms.Schema
