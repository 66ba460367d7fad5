import SchemaForms.Proofs.Schema.Correct
import SchemaForms.Proofs.Schema.Keys
import SchemaForms.Proofs.Value.Reordered
import SchemaForms.Schema.Equal

/-!
# Schemas up to the order of maps

Two schemas are *reordered* if they are the same but for the order of the entries of their maps.
Then they agree keyword by keyword, with schemas below that are reordered again (`Reordered.agree`).
A relation of this kind keeps correct nodes correct, so reordered roots pass the same check
(`Reordered.check_eq_ok_iff`).
-/

namespace SchemaForms.Schema

/-- Two nodes have the same keywords, with related schemas below. -/
structure Agree (R : Schema → Schema → Prop) (s t : Schema) : Prop where
  definitions : Option.Rel (MapsAlike R) s.definitions t.definitions
  ref : s.ref = t.ref
  type : s.type = t.type
  enum : s.enum = t.enum
  elements : Option.Rel R s.elements t.elements
  properties : Option.Rel (MapsAlike R) s.properties t.properties
  optionalProperties : Option.Rel (MapsAlike R) s.optionalProperties t.optionalProperties
  values : Option.Rel R s.values t.values
  discriminator : Option.Rel
    (fun d e => d.tag = e.tag ∧ Option.Rel (MapsAlike R) d.mapping e.mapping)
    s.discriminator t.discriminator

/-- The same schema, but for the order of maps, none of which has a key twice. -/
def Reordered (s t : Schema) : Prop := s.distinctKeys = true ∧ s.same t = true

variable {s t : Schema}

/-! ## Reordered schemas agree -/

theorem sameEntries_iff {a b : List (String × Schema)} :
    sameEntries a b = true ↔
      ∀ entry ∈ a, ∃ t, b.lookup entry.1 = some t ∧ entry.2.same t = true := by
  induction a with
  | nil => simp [sameEntries]
  | cons entry rest ih =>
    obtain ⟨key, s⟩ := entry
    rw [sameEntries, Bool.and_eq_true, ih, List.forall_mem_cons]
    refine and_congr_left fun _ => ?_
    cases b.lookup key with
    | none => simp
    | some t => simp

theorem mapsAlike_of_sameEntries {a b : List (String × Schema)}
    (ha : distinctKeysOfMap (some a) = true) (hlength : a.length = b.length)
    (h : sameEntries a b = true) : MapsAlike Reordered a b := by
  obtain ⟨hnodup, hbelow⟩ := distinctKeysOfMap_some ha
  rw [sameEntries_iff] at h
  have hsubset : a.map (·.1) ⊆ b.map (·.1) := by
    intro key hkey
    obtain ⟨entry, hentry, rfl⟩ := List.mem_map.mp hkey
    obtain ⟨t, ht, -⟩ := h entry hentry
    exact List.mem_map.mpr ⟨_, mem_of_lookup ht, rfl⟩
  have hkeys : (a.map (·.1)).Perm (b.map (·.1)) :=
    (List.subperm_of_subset hnodup hsubset).perm_of_length_le (by simp [hlength])
  refine .of_lookup hkeys hnodup fun key s t hs ht => ?_
  obtain ⟨t', ht', hsame⟩ := h _ (mem_of_lookup hs)
  obtain rfl : t' = t := Option.some.inj (ht'.symm.trans ht)
  exact ⟨hbelow _ (mem_of_lookup hs), hsame⟩

theorem rel_of_sameNode {a b : Option Schema} (ha : distinctKeysOfNode a = true)
    (h : sameNode a b = true) : Option.Rel Reordered a b := by
  unfold sameNode at h
  split at h
  case h_1 => exact .none
  case h_2 => exact .some ⟨ha, h⟩
  case h_3 => cases h

theorem rel_of_sameMap {a b : Option (List (String × Schema))} (ha : distinctKeysOfMap a = true)
    (h : sameMap a b = true) : Option.Rel (MapsAlike Reordered) a b := by
  unfold sameMap at h
  split at h
  case h_1 => exact .none
  case h_2 =>
    rw [Bool.and_eq_true, beq_iff_eq] at h
    exact .some (mapsAlike_of_sameEntries ha h.1 h.2)
  case h_3 => cases h

theorem rel_of_sameUnion {a b : Option (Discriminator Schema)} (ha : distinctKeysOfUnion a = true)
    (h : sameUnion a b = true) :
    Option.Rel (fun d e => d.tag = e.tag ∧ Option.Rel (MapsAlike Reordered) d.mapping e.mapping)
      a b := by
  unfold sameUnion at h
  split at h
  case h_1 => exact .none
  case h_2 =>
    rw [Bool.and_eq_true, beq_iff_eq] at h
    exact .some ⟨h.1, rel_of_sameMap ha h.2⟩
  case h_3 => cases h

theorem Reordered.agree (h : Reordered s t) : Agree Reordered s t := by
  obtain ⟨hkeys, hsame⟩ := h
  obtain ⟨hdefinitions, helements, hproperties, hoptional, hvalues, hunion⟩ :=
    distinctKeys_iff.mp hkeys
  cases s
  rw [same] at hsame
  simp only [Bool.and_eq_true, beq_iff_eq] at hsame
  obtain ⟨⟨⟨⟨⟨⟨⟨⟨hd, href⟩, htype⟩, henum⟩, he⟩, hp⟩, ho⟩, hv⟩, hu⟩ := hsame
  exact ⟨rel_of_sameMap hdefinitions hd, href, htype, henum, rel_of_sameNode helements he,
    rel_of_sameMap hproperties hp, rel_of_sameMap hoptional ho, rel_of_sameNode hvalues hv,
    rel_of_sameUnion hunion hu⟩

/-! ## Nodes that agree -/

theorem rel_flip {α β : Type} {P : α → β → Prop} {Q : β → α → Prop} {a : Option α} {b : Option β}
    (h : Option.Rel P a b) (himp : ∀ x y, P x y → Q y x) : Option.Rel Q b a := by
  cases h with
  | none => exact .none
  | some hxy => exact .some (himp _ _ hxy)

section agree
variable {R : Schema → Schema → Prop} {a b : Schema} {names names' : List String}

theorem mapsAlike_of_rel {a b : Option (List (String × Schema))}
    (h : Option.Rel (MapsAlike R) a b) : MapsAlike R (entries a) (entries b) := by
  cases h with
  | none => exact .of_forall₂ .nil
  | some h => exact h

theorem exists_mem_of_rel {a b : Option (List (String × Schema))} {key : String}
    (h : Option.Rel (MapsAlike R) a b) (hs : (key, s) ∈ entries a) :
    ∃ t, (key, t) ∈ entries b ∧ R s t :=
  (mapsAlike_of_rel h).exists_mem hs

theorem keys_perm_of_rel {a b : Option (List (String × Schema))}
    (h : Option.Rel (MapsAlike R) a b) : (keys a).Perm (keys b) :=
  (mapsAlike_of_rel h).keys_perm

theorem Agree.flip (h : Agree R s t) : Agree (fun t s => R s t) t s where
  definitions := rel_flip h.definitions fun _ _ => MapsAlike.flip
  ref := h.ref.symm
  type := h.type.symm
  enum := h.enum.symm
  elements := rel_flip h.elements fun _ _ => id
  properties := rel_flip h.properties fun _ _ => MapsAlike.flip
  optionalProperties := rel_flip h.optionalProperties fun _ _ => MapsAlike.flip
  values := rel_flip h.values fun _ _ => id
  discriminator := rel_flip h.discriminator fun _ _ hde =>
    ⟨hde.1.symm, rel_flip hde.2 fun _ _ => MapsAlike.flip⟩

theorem Agree.exists_mapping (h : Agree R s t) {tag : String} {mapping : List (String × Schema)}
    (hs : s.discriminator = some ⟨tag, some mapping⟩) :
    ∃ mapping', t.discriminator = some ⟨tag, some mapping'⟩ ∧ MapsAlike R mapping mapping' := by
  obtain ⟨⟨tag', m⟩, hd, htag, hrel⟩ := exists_of_rel h.discriminator hs
  obtain ⟨mapping', rfl, hmapping⟩ := exists_of_rel hrel rfl
  obtain rfl : tag = tag' := htag
  exact ⟨mapping', hd, hmapping⟩

theorem Agree.populates (h : Agree R s t) {f : Form} (hf : s.Populates f) : t.Populates f := by
  cases f with
  | empty => exact hf
  | ref => simpa only [Populates, h.ref] using hf
  | type => simpa only [Populates, h.type] using hf
  | enum => simpa only [Populates, h.enum] using hf
  | elements =>
    obtain ⟨item, hitem⟩ := hf
    exact (exists_of_rel h.elements hitem).imp fun _ => And.left
  | properties =>
    rcases hf with ⟨map, hmap⟩ | ⟨map, hmap⟩
    · exact .inl ((exists_of_rel h.properties hmap).imp fun _ => And.left)
    · exact .inr ((exists_of_rel h.optionalProperties hmap).imp fun _ => And.left)
  | values =>
    obtain ⟨member, hmember⟩ := hf
    exact (exists_of_rel h.values hmember).imp fun _ => And.left
  | discriminator =>
    obtain ⟨tag, mapping, hd⟩ := hf
    obtain ⟨mapping', hd', -⟩ := h.exists_mapping hd
    exact ⟨tag, mapping', hd'⟩

theorem Agree.child (h : Agree R s t) {u : Schema} (hu : Child s u) :
    ∃ v, Child t v ∧ R u v := by
  cases hu with
  | elements hs =>
    obtain ⟨v, ht, huv⟩ := exists_of_rel h.elements hs
    exact ⟨v, .elements ht, huv⟩
  | required hs hu =>
    obtain ⟨map, ht, hmaps⟩ := exists_of_rel h.properties hs
    obtain ⟨v, hv, huv⟩ := hmaps.exists_mem hu
    exact ⟨v, .required ht hv, huv⟩
  | optional hs hu =>
    obtain ⟨map, ht, hmaps⟩ := exists_of_rel h.optionalProperties hs
    obtain ⟨v, hv, huv⟩ := hmaps.exists_mem hu
    exact ⟨v, .optional ht hv, huv⟩
  | values hs =>
    obtain ⟨v, ht, huv⟩ := exists_of_rel h.values hs
    exact ⟨v, .values ht, huv⟩
  | tagged hs hu =>
    obtain ⟨map, ht, hmaps⟩ := h.exists_mapping hs
    obtain ⟨v, hv, huv⟩ := hmaps.exists_mem hu
    exact ⟨v, .tagged ht hv, huv⟩

/-! ## Related roots pass the same check -/

theorem CheckedNode.exists_related (hR : ∀ s t, R s t → Agree R s t) (hroots : R a b)
    (h : CheckedNode a s) : ∃ t, CheckedNode b t ∧ R s t := by
  induction h with
  | root => exact ⟨b, .root, hroots⟩
  | definition hs =>
    obtain ⟨t, ht, hst⟩ := exists_mem_of_rel (hR a b hroots).definitions hs
    exact ⟨t, .definition ht, hst⟩
  | child _ hchild ih =>
    obtain ⟨t, ht, hst⟩ := ih
    obtain ⟨v, hv, huv⟩ := (hR _ t hst).child hchild
    exact ⟨v, ht.child hv, huv⟩

/-- A node that agrees with a correct one is correct, if the schemas under its tags agree too. -/
theorem Correct.of_agree (hagree : Agree R s t)
    (hR : ∀ s' t', R s' t' → s'.ref = none → Agree R s' t')
    (hnames : ∀ name ∈ names, name ∈ names') (h : s.Correct names) : t.Correct names' := by
  have hback := hagree.flip
  refine ⟨fun f g hf hg => h.sole f g (hback.populates hf) (hback.populates hg),
    fun name hname => hnames name (h.ref name (hagree.ref.trans hname)),
    fun typeName htype => h.type typeName (hagree.type.trans htype),
    fun values hvalues => h.enum values (hagree.enum.trans hvalues), fun name hname => ?_, ?_⟩
  · rw [← (keys_perm_of_rel hagree.optionalProperties).mem_iff]
    exact h.disjoint name ((keys_perm_of_rel hagree.properties).mem_iff.mpr hname)
  · intro tag mapping hd value t' ht'
    obtain ⟨mapping', hd', hmaps⟩ := hback.exists_mapping hd
    obtain ⟨s', hs', hst'⟩ := hmaps.exists_mem ht'
    obtain ⟨hpopulates, honly, hrequired, hoptional⟩ := h.tagged tag mapping' hd' value s' hs'
    have href : s'.ref = none := by
      by_contra hne
      cases honly .ref (Option.ne_none_iff_exists'.mp hne)
    have hbelow := hR s' t' hst' href
    refine ⟨hbelow.populates hpopulates, fun f hf => honly f (hbelow.flip.populates hf), ?_, ?_⟩
    · rwa [← (keys_perm_of_rel hbelow.properties).mem_iff]
    · rwa [← (keys_perm_of_rel hbelow.optionalProperties).mem_iff]

theorem check_of_related (hR : ∀ s t, R s t → Agree R s t) (hroots : R a b)
    (h : a.check = .ok ()) : b.check = .ok () := by
  have hnames : ∀ name ∈ keys a.definitions, name ∈ keys b.definitions := fun name =>
    (keys_perm_of_rel (hR a b hroots).definitions).mem_iff.mp
  refine check_eq_ok_iff_checkNode.mpr fun t ht => checkNode_of_correct fun u hu => ?_
  obtain ⟨s, hs, hsu⟩ := (ht.of_below hu).exists_related (R := fun t s => R s t)
    (fun t s hst => (hR s t hst).flip) hroots
  exact (hs.correct h).of_agree (hR s u hsu) (fun s' t' hst _ => hR s' t' hst) hnames

end agree

/-- Reordered roots pass the same check. -/
theorem Reordered.check_eq_ok_iff (h : Reordered s t) : s.check = .ok () ↔ t.check = .ok () :=
  ⟨check_of_related (fun _ _ => Reordered.agree) h,
    check_of_related (fun _ _ hst => (Reordered.agree hst).flip) h⟩

end SchemaForms.Schema
