import Mathlib.Data.List.Forall2
import Mathlib.Data.List.Nodup
import SchemaForms.Proofs.Schema.Groups
import SchemaForms.Value.Basic

/-!
# Values with distinct keys

A value lists the members of an object, so nothing in its type keeps a key from coming twice. A
document has every key once: `Value.distinctKeys` says so of all objects in a value. Under distinct
keys a member is what its key looks up (`lookup_eq_some_iff_mem`). Members that are collected have
distinct keys (`nodup_keys_collectMembers`).
-/

namespace SchemaForms

theorem exists_of_mem_forall₂ {α β : Type} {R : α → β → Prop} {xs : List α} {ys : List β} {y : β}
    (h : List.Forall₂ R xs ys) (hy : y ∈ ys) : ∃ x ∈ xs, R x y := by
  induction h with
  | nil => cases hy
  | cons hxy _ ih =>
    rcases List.mem_cons.mp hy with rfl | hy
    · exact ⟨_, List.mem_cons_self, hxy⟩
    · obtain ⟨x, hx, hR⟩ := ih hy
      exact ⟨x, List.mem_cons_of_mem _ hx, hR⟩

theorem forall₂_imp_of_mem {α β : Type} {R S : α → β → Prop} {xs : List α} {ys : List β}
    (h : List.Forall₂ R xs ys) (himp : ∀ x ∈ xs, ∀ y ∈ ys, R x y → S x y) :
    List.Forall₂ S xs ys := by
  refine List.forall₂_iff_zip.mpr ⟨h.length_eq, fun hmem => ?_⟩
  obtain ⟨hx, hy⟩ := List.of_mem_zip hmem
  exact himp _ hx _ hy (List.forall₂_zip h hmem)

theorem forall₂_congr_of_mem {α β : Type} {R S : α → β → Prop} {xs : List α} {ys : List β}
    (h : ∀ x ∈ xs, ∀ y, R x y ↔ S x y) : List.Forall₂ R xs ys ↔ List.Forall₂ S xs ys :=
  ⟨fun hR => forall₂_imp_of_mem hR fun x hx y _ => (h x hx y).mp,
    fun hS => forall₂_imp_of_mem hS fun x hx y _ => (h x hx y).mpr⟩

theorem lookup_eq_some_iff_mem {α : Type} {members : List (String × α)}
    (h : (members.map (·.1)).Nodup) {key : String} {x : α} :
    members.lookup key = some x ↔ (key, x) ∈ members := by
  refine ⟨mem_of_lookup, fun hmem => ?_⟩
  obtain ⟨y, hy⟩ := exists_lookup_of_mem_keys (List.mem_map_of_mem hmem)
  have heq : (key, y) = (key, x) := List.inj_on_of_nodup_map h (mem_of_lookup hy) hmem rfl
  rw [hy, (Prod.mk.inj heq).2]

/-! ## Members collected by key -/

section
variable {α : Type} {key : String} {x : α} {entry : String × α} {members pairs : List (String × α)}

theorem mem_keys_insertMember {name : String}
    (h : name ∈ (insertMember key x members).map (·.1)) :
    name = key ∨ name ∈ members.map (·.1) := by
  induction members with
  | nil => exact .inl (List.mem_singleton.mp h)
  | cons first rest ih =>
    rw [insertMember] at h
    split_ifs at h with hkey
    · exact .inr h
    · rcases List.mem_cons.mp h with rfl | h
      · exact .inr List.mem_cons_self
      · exact (ih h).imp_right (List.mem_cons_of_mem _)

theorem nodup_keys_insertMember (h : (members.map (·.1)).Nodup) :
    ((insertMember key x members).map (·.1)).Nodup := by
  induction members with
  | nil => exact List.nodup_singleton key
  | cons first rest ih =>
    obtain ⟨hfirst, hrest⟩ := List.nodup_cons.mp h
    rw [insertMember]
    split_ifs with hkey
    · exact h
    · refine List.nodup_cons.mpr ⟨fun hmem => ?_, ih hrest⟩
      exact (mem_keys_insertMember hmem).elim hkey hfirst

theorem mem_insertMember (h : entry ∈ insertMember key x members) :
    entry.2 = x ∨ entry ∈ members := by
  induction members with
  | nil => exact .inl (congrArg (·.2) (List.mem_singleton.mp h))
  | cons first rest ih =>
    rw [insertMember] at h
    split_ifs at h
    · rcases List.mem_cons.mp h with rfl | h
      · exact .inl rfl
      · exact .inr (List.mem_cons_of_mem _ h)
    · rcases List.mem_cons.mp h with rfl | h
      · exact .inr List.mem_cons_self
      · exact (ih h).imp_right (List.mem_cons_of_mem _)

/-- Collected members have every key once. -/
theorem nodup_keys_collectMembers (pairs : List (String × α)) :
    ((collectMembers pairs).map (·.1)).Nodup := by
  unfold collectMembers
  refine List.foldlRecOn (motive := fun members : List (String × α) => (members.map (·.1)).Nodup)
    pairs _ ?_ fun members hmembers pair _ => ?_
  · exact List.nodup_nil
  · exact nodup_keys_insertMember hmembers

theorem mem_keys_of_mem_keys_collectMembers {name : String}
    (h : name ∈ (collectMembers pairs).map (·.1)) : name ∈ pairs.map (·.1) := by
  unfold collectMembers at h
  refine List.foldlRecOn
    (motive := fun members : List (String × α) =>
      name ∈ members.map (·.1) → name ∈ pairs.map (·.1)) pairs _ ?_
    (fun members hmembers pair hpair hname => ?_) h
  · exact fun hnil => absurd hnil List.not_mem_nil
  · rcases mem_keys_insertMember hname with rfl | hname
    · exact List.mem_map_of_mem hpair
    · exact hmembers hname

theorem insertMember_of_notMem (h : key ∉ members.map (·.1)) :
    insertMember key x members = members ++ [(key, x)] := by
  induction members with
  | nil => rfl
  | cons first rest ih =>
    rw [List.map_cons, List.mem_cons, not_or] at h
    rw [insertMember, if_neg (Ne.symm h.1), ih h.2, List.cons_append]

/-- Pairs with distinct keys are collected as they are. -/
theorem collectMembers_of_nodup (h : (pairs.map (·.1)).Nodup) : collectMembers pairs = pairs := by
  have hfold : ∀ members : List (String × α), ((members ++ pairs).map (·.1)).Nodup →
      pairs.foldl (fun members pair => insertMember pair.1 pair.2 members) members =
        members ++ pairs := by
    clear h
    induction pairs with
    | nil => exact fun members _ => (List.append_nil members).symm
    | cons pair rest ih =>
      obtain ⟨name, y⟩ := pair
      intro members hnodup
      have hnew : name ∉ members.map (·.1) := by
        rw [List.map_append, List.map_cons, List.nodup_middle, List.nodup_cons] at hnodup
        exact fun hmem => hnodup.1 (List.mem_append_left _ hmem)
      rw [List.foldl_cons, insertMember_of_notMem hnew, ih]
      · rw [List.append_assoc, List.singleton_append]
      · rw [List.append_assoc, List.singleton_append]
        exact hnodup
  exact hfold [] h

theorem exists_mem_of_mem_collectMembers (h : entry ∈ collectMembers pairs) :
    ∃ pair ∈ pairs, pair.2 = entry.2 := by
  refine List.foldlRecOn
    (motive := fun members => ∀ entry ∈ members, ∃ pair ∈ pairs, pair.2 = entry.2) pairs _ ?_
    (fun members hmembers pair hpair entry hentry => ?_) entry h
  · simp
  · rcases mem_insertMember hentry with heq | hmem
    · exact ⟨pair, hpair, heq.symm⟩
    · exact hmembers entry hmem

end

/-! ## Distinct keys at every depth -/

namespace Value

mutual
/-- Whether the keys are distinct in every object of the value. -/
def distinctKeys : Value → Bool
  | array items => allDistinctKeys items
  | object members => decide (members.map (·.1)).Nodup && allMembersDistinctKeys members
  | _ => true

/-- Whether the keys are distinct in every object of the items. -/
def allDistinctKeys : List Value → Bool
  | [] => true
  | item :: rest => distinctKeys item && allDistinctKeys rest

/-- Whether the keys are distinct in every object of the members. -/
def allMembersDistinctKeys : List (String × Value) → Bool
  | [] => true
  | (_, member) :: rest => distinctKeys member && allMembersDistinctKeys rest
end

theorem distinctKeys_array_iff {items : List Value} :
    (array items).distinctKeys = true ↔ ∀ x ∈ items, x.distinctKeys = true := by
  rw [distinctKeys]
  induction items with
  | nil => simp [allDistinctKeys]
  | cons x rest ih => simp [allDistinctKeys, ih]

theorem allMembersDistinctKeys_iff {members : List (String × Value)} :
    allMembersDistinctKeys members = true ↔ ∀ entry ∈ members, entry.2.distinctKeys = true := by
  induction members with
  | nil => simp [allMembersDistinctKeys]
  | cons entry rest ih => rw [allMembersDistinctKeys, Bool.and_eq_true, ih, List.forall_mem_cons]

theorem distinctKeys_object_iff {members : List (String × Value)} :
    (object members).distinctKeys = true ↔
      (members.map (·.1)).Nodup ∧ ∀ entry ∈ members, entry.2.distinctKeys = true := by
  rw [distinctKeys, Bool.and_eq_true, decide_eq_true_eq, allMembersDistinctKeys_iff]

end Value

end SchemaForms
