import SchemaForms.Proofs.Value.Reordered
import SchemaForms.Proofs.Value.Showable
import SchemaForms.Value.Sorted

/-!
# Values with their members in order

A value with sorted members is the same but for the order of members (`Value.reordered_sorted`), its
members stand in the order of their keys at every depth (`Value.ordered_sorted`), and there is one
such value for all that differ in the order of members alone (`Value.Reordered.sorted_eq`).
-/

namespace SchemaForms

namespace Value

/-! ## Values that a text can express -/

/-- A JSON text can express the value: it is proper, and no integer in it is too long. -/
structure Expressible (v : Value) : Prop where
  proper : v.Proper
  showable : v.isShowable = true

theorem expressible_array_iff {items : List Value} :
    (array items).Expressible ↔ ∀ x ∈ items, x.Expressible := by
  constructor
  · rintro ⟨hproper, hshowable⟩ x hx
    exact ⟨proper_array_iff.mp hproper x hx, isShowable_array_iff.mp hshowable x hx⟩
  · intro h
    exact ⟨proper_array_iff.mpr fun x hx => (h x hx).proper,
      isShowable_array_iff.mpr fun x hx => (h x hx).showable⟩

theorem expressible_object_iff {members : List (String × Value)} :
    (object members).Expressible ↔
      (members.map (·.1)).Nodup ∧ ∀ entry ∈ members, entry.2.Expressible := by
  constructor
  · rintro ⟨hproper, hshowable⟩
    obtain ⟨hnodup, hmembers⟩ := proper_object_iff.mp hproper
    exact ⟨hnodup, fun entry h =>
      ⟨hmembers entry h, isShowable_object_iff.mp hshowable entry h⟩⟩
  · rintro ⟨hnodup, h⟩
    exact ⟨proper_object_iff.mpr ⟨hnodup, fun entry hentry => (h entry hentry).proper⟩,
      isShowable_object_iff.mpr fun entry hentry => (h entry hentry).showable⟩

/-- What stands in a reordered container is reordered, so it is expressible if it was before. -/
theorem Reordered.expressible {v w : Value} (h : v.Reordered w) (hv : v.Expressible) :
    w.Expressible := by
  induction h with
  | leaf _ _ => exact hv
  | array hlength _ ih =>
    have hitems := expressible_array_iff.mp hv
    refine expressible_array_iff.mpr fun y hy => ?_
    obtain ⟨x, hx, hxy⟩ := exists_of_mem_forall₂ (forall₂_of_getElem? hlength ih) hy
    exact hxy (hitems x hx)
  | object hkeys _ ih =>
    obtain ⟨hnodup, hmembers⟩ := expressible_object_iff.mp hv
    refine expressible_object_iff.mpr ⟨hkeys.nodup_iff.mp hnodup, fun entry hentry => ?_⟩
    obtain ⟨x, hx, hxy⟩ := (MapsAlike.of_lookup hkeys hnodup ih).flip.exists_mem hentry
    exact hxy (hmembers _ hx)

/-! ## The sorted value -/

/-- Every member sorted in itself. -/
def sortEntry (entry : String × Value) : String × Value := (entry.1, entry.2.sorted)

@[simp] theorem sorted_array (items : List Value) :
    (array items).sorted = array (items.map sorted) := by
  rw [sorted]
  congr 1
  induction items with
  | nil => rfl
  | cons x rest ih => rw [sortedItems, ih, List.map_cons]

@[simp] theorem sorted_object (members : List (String × Value)) :
    (object members).sorted = object ((members.map sortEntry).mergeSort keyBefore) := by
  rw [sorted]
  congr 2
  induction members with
  | nil => rfl
  | cons entry rest ih => rw [sortedMembers, ih, List.map_cons]; rfl

theorem keys_map_sortEntry (members : List (String × Value)) :
    (members.map sortEntry).map (·.1) = members.map (·.1) := by
  rw [List.map_map]
  rfl

/-- **Sorting changes the order of members only.** -/
theorem reordered_sorted {v : Value} (hv : v.Proper) : v.Reordered v.sorted := by
  induction hn : v.height using Nat.strongRecOn generalizing v with
  | ind n ih =>
    subst hn
    cases v with
    | array items =>
      rw [sorted_array]
      refine .array (by simp) fun i x y hx hy => ?_
      rw [List.getElem?_map, hx, Option.map_some] at hy
      obtain rfl := Option.some.inj hy
      have hmem : x ∈ items := List.mem_of_getElem? hx
      exact ih _ (height_lt_of_mem_items hmem) (proper_array_iff.mp hv x hmem) rfl
    | object members =>
      obtain ⟨hnodup, hmembers⟩ := proper_object_iff.mp hv
      have hperm := List.mergeSort_perm (members.map sortEntry) keyBefore
      rw [sorted_object]
      refine .object ?_ fun key x y hx hy => ?_
      · have hkeys := (hperm.map (·.1)).symm
        rwa [keys_map_sortEntry] at hkeys
      · have hmem : (key, x) ∈ members := mem_of_lookup hx
        obtain ⟨⟨name, x'⟩, hmem', heq⟩ := List.mem_map.mp (hperm.subset (mem_of_lookup hy))
        obtain ⟨rfl, rfl⟩ := Prod.mk.inj heq
        have hsame : (name, x') = (name, x) := List.inj_on_of_nodup_map hnodup hmem' hmem rfl
        obtain rfl := (Prod.mk.inj hsame).2
        exact ih _ (height_lt_of_mem_members hmem') (hmembers _ hmem') rfl
    | _ => exact .leaf (by simp) (by simp)

/-! ## The order of keys -/

/-- The keys of every object in the value stand in their order, by code point. -/
inductive Ordered : Value → Prop
  | leaf {v : Value} (harray : ∀ items, v ≠ .array items)
      (hobject : ∀ members, v ≠ .object members) : Ordered v
  | array {items : List Value} (h : ∀ x ∈ items, Ordered x) : Ordered (.array items)
  | object {members : List (String × Value)} (hkeys : members.Pairwise fun a b => a.1 < b.1)
      (h : ∀ entry ∈ members, Ordered entry.2) : Ordered (.object members)

/-- Sorted members stand in the strict order of their keys, as no key comes twice. -/
theorem pairwise_lt_mergeSort {members : List (String × Value)}
    (hnodup : (members.map (·.1)).Nodup) :
    (members.mergeSort keyBefore).Pairwise fun a b => a.1 < b.1 := by
  have hbefore : (members.mergeSort keyBefore).Pairwise fun a b => keyBefore a b = true := by
    apply List.pairwise_mergeSort
    · intro a b c hab hbc
      rw [keyBefore, decide_eq_true_eq] at hab hbc ⊢
      exact String.le_trans hab hbc
    · intro a b
      rw [keyBefore, keyBefore, Bool.or_eq_true, decide_eq_true_eq, decide_eq_true_eq]
      exact String.le_total a.1 b.1
  have hdistinct : (members.mergeSort keyBefore).Pairwise fun a b => a.1 ≠ b.1 := by
    have hkeys := ((List.mergeSort_perm members keyBefore).map (·.1)).nodup_iff.mpr hnodup
    exact List.pairwise_map.mp hkeys
  refine (hbefore.and hdistinct).imp fun {a b} hab => ?_
  have hle : a.1 ≤ b.1 := of_decide_eq_true hab.1
  exact Classical.not_not.mp fun hlt => hab.2 (String.le_antisymm hle (String.not_lt.mp hlt))

/-- **Sorting puts the members into the order of their keys**, at every depth. -/
theorem ordered_sorted {v : Value} (hv : v.Proper) : v.sorted.Ordered := by
  induction hn : v.height using Nat.strongRecOn generalizing v with
  | ind n ih =>
    subst hn
    cases v with
    | array items =>
      rw [sorted_array]
      refine .array fun y hy => ?_
      obtain ⟨x, hx, rfl⟩ := List.mem_map.mp hy
      exact ih _ (height_lt_of_mem_items hx) (proper_array_iff.mp hv x hx) rfl
    | object members =>
      obtain ⟨hnodup, hmembers⟩ := proper_object_iff.mp hv
      have hperm := List.mergeSort_perm (members.map sortEntry) keyBefore
      rw [sorted_object]
      refine .object (pairwise_lt_mergeSort ?_) fun entry hentry => ?_
      · rw [keys_map_sortEntry]
        exact hnodup
      · obtain ⟨⟨key, x⟩, hmem, rfl⟩ := List.mem_map.mp (hperm.subset hentry)
        exact ih _ (height_lt_of_mem_members hmem) (hmembers _ hmem) rfl
    | _ => exact .leaf (by simp [sorted]) (by simp [sorted])

/-- Members that are the same up to their order are the same once they are sorted. -/
theorem mergeSort_eq_of_perm {members members' : List (String × Value)}
    (hperm : members.Perm members') (hnodup : (members.map (·.1)).Nodup) :
    members.mergeSort keyBefore = members'.mergeSort keyBefore := by
  have hsorted : (members.mergeSort keyBefore).Perm (members'.mergeSort keyBefore) :=
    (List.mergeSort_perm _ _).trans (hperm.trans (List.mergeSort_perm _ _).symm)
  have hnodup' : (members'.map (·.1)).Nodup := (hperm.map _).nodup_iff.mp hnodup
  refine hsorted.eq_of_pairwise (fun a b _ _ hab hba => ?_) (pairwise_lt_mergeSort hnodup)
    (pairwise_lt_mergeSort hnodup')
  exact absurd (String.lt_trans hab hba) (String.lt_irrefl _)

/-- The members of objects that are the same once they are sorted. -/
theorem perm_of_sorted_eq {members members' : List (String × Value)}
    (h : (object members).sorted = (object members').sorted) :
    (members.map sortEntry).Perm (members'.map sortEntry) := by
  rw [sorted_object, sorted_object] at h
  have hsorted := List.mergeSort_perm (members.map sortEntry) keyBefore
  rw [object.inj h] at hsorted
  exact hsorted.symm.trans (List.mergeSort_perm _ _)

/-- **Values that differ in the order of members alone are the same once they are sorted.** -/
theorem Reordered.sorted_eq {v w : Value} (h : v.Reordered w) (hv : v.Proper) :
    v.sorted = w.sorted := by
  induction h with
  | leaf _ _ => rfl
  | @array items items' hlength _ ih =>
    have hitems := proper_array_iff.mp hv
    have hmap : List.Forall₂ Eq (items.map sorted) (items'.map sorted) := by
      rw [List.forall₂_map_left_iff, List.forall₂_map_right_iff]
      exact forall₂_imp_of_mem (forall₂_of_getElem? hlength ih) fun x hx _ _ hxy =>
        hxy (hitems x hx)
    rw [List.forall₂_eq_eq_eq] at hmap
    rw [sorted_array, sorted_array, hmap]
  | @object members members' hkeys _ ih =>
    obtain ⟨hnodup, hmembers⟩ := proper_object_iff.mp hv
    have halike := (MapsAlike.of_lookup hkeys hnodup ih).imp_of_mem
      (S := fun a b => sortEntry a = sortEntry b) fun a ha b _ hab =>
        Prod.ext hab.1 (hab.2 (hmembers a ha))
    have hmap : UpToOrder Eq (members.map sortEntry) (members'.map sortEntry) :=
      halike.map fun _ _ hab => hab
    obtain ⟨zs, hzs, hperm⟩ := hmap
    rw [List.forall₂_eq_eq_eq] at hzs
    rw [sorted_object, sorted_object]
    congr 1
    refine mergeSort_eq_of_perm (hzs ▸ hperm) ?_
    rw [keys_map_sortEntry]
    exact hnodup

end Value

end SchemaForms
