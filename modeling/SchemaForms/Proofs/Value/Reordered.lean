import Mathlib.Data.List.Forall2
import Mathlib.Data.List.Perm.Basic
import SchemaForms.Proofs.Value.Height
import SchemaForms.Proofs.Value.Proper
import SchemaForms.Validation.Admits

/-!
# Values up to the order of members

`UpToOrder` relates two lists if the second one, in some other order, is related to the first one
element by element; for the entries of two maps this is that they have the same keys with related
values behind them. Two values are *reordered* if they are the same but for the order of the members
of their objects, at any depth (`Value.Reordered`).
-/

namespace SchemaForms

/-- The second list is, in some order, related to the first one element by element. -/
def UpToOrder {α β : Type} (R : α → β → Prop) (xs : List α) (ys : List β) : Prop :=
  ∃ zs, List.Forall₂ R xs zs ∧ zs.Perm ys

theorem rel_cases {α β : Type} {R : α → β → Prop} {a : Option α} {b : Option β}
    (h : Option.Rel R a b) : a = none ∧ b = none ∨ ∃ x y, a = some x ∧ b = some y ∧ R x y := by
  cases h with
  | none => exact .inl ⟨rfl, rfl⟩
  | some hxy => exact .inr ⟨_, _, rfl, rfl, hxy⟩

theorem exists_of_rel {α β : Type} {R : α → β → Prop} {a : Option α} {b : Option β} {x : α}
    (h : Option.Rel R a b) (ha : a = some x) : ∃ y, b = some y ∧ R x y := by
  cases h with
  | none => cases ha
  | some hxy =>
    cases ha
    exact ⟨_, rfl, hxy⟩

theorem optionRel_refl {α : Type} {R : α → α → Prop} (hR : ∀ x, R x x) (a : Option α) :
    Option.Rel R a a := by
  cases a with
  | none => exact .none
  | some x => exact .some (hR x)

theorem optionRel_imp {α β : Type} {R S : α → β → Prop} (himp : ∀ x y, R x y → S x y)
    {a : Option α} {b : Option β} (h : Option.Rel R a b) : Option.Rel S a b := by
  cases h with
  | none => exact .none
  | some hxy => exact .some (himp _ _ hxy)

theorem isSome_eq_of_rel {α β : Type} {R : α → β → Prop} {a : Option α} {b : Option β}
    (h : Option.Rel R a b) : a.isSome = b.isSome := by
  cases h <;> rfl

theorem map_eq_of_rel {α β γ : Type} {R : α → β → Prop} {a : Option α} {b : Option β}
    {f : α → γ} {g : β → γ} (h : Option.Rel R a b) (hfg : ∀ x y, R x y → f x = g y) :
    a.map f = b.map g := by
  cases h with
  | none => rfl
  | some hxy => rw [Option.map_some, Option.map_some, hfg _ _ hxy]

namespace UpToOrder

variable {α β γ δ : Type} {R S : α → β → Prop} {P : γ → δ → Prop} {xs xs' : List α}
  {ys ys' : List β}

theorem of_forall₂ (h : List.Forall₂ R xs ys) : UpToOrder R xs ys := ⟨ys, h, .refl _⟩

theorem append (h : UpToOrder R xs ys) (h' : UpToOrder R xs' ys') :
    UpToOrder R (xs ++ xs') (ys ++ ys') := by
  obtain ⟨zs, hzs, hperm⟩ := h
  obtain ⟨zs', hzs', hperm'⟩ := h'
  exact ⟨zs ++ zs', List.rel_append hzs hzs', hperm.append hperm'⟩

theorem map {f : α → γ} {g : β → δ} (h : UpToOrder R xs ys) (hfg : ∀ x y, R x y → P (f x) (g y)) :
    UpToOrder P (xs.map f) (ys.map g) := by
  obtain ⟨zs, hzs, hperm⟩ := h
  exact ⟨zs.map g, List.rel_map (fun {x y} => hfg x y) hzs, hperm.map g⟩

theorem filterMap {f : α → Option γ} {g : β → Option δ} (h : UpToOrder R xs ys)
    (hfg : ∀ x y, R x y → Option.Rel P (f x) (g y)) :
    UpToOrder P (xs.filterMap f) (ys.filterMap g) := by
  obtain ⟨zs, hzs, hperm⟩ := h
  exact ⟨zs.filterMap g, List.rel_filterMap (fun {x y} => hfg x y) hzs, hperm.filterMap g⟩

theorem imp_of_mem (h : UpToOrder R xs ys) (himp : ∀ x ∈ xs, ∀ y ∈ ys, R x y → S x y) :
    UpToOrder S xs ys := by
  obtain ⟨zs, hzs, hperm⟩ := h
  exact ⟨zs, forall₂_imp_of_mem hzs fun x hx y hy => himp x hx y (hperm.subset hy), hperm⟩

theorem flip (h : UpToOrder R xs ys) : UpToOrder (fun y x => R x y) ys xs := by
  obtain ⟨zs, hzs, hperm⟩ := h
  exact List.perm_comp_forall₂ hperm.symm (List.Forall₂.flip hzs)

theorem exists_of_mem {x : α} (h : UpToOrder R xs ys) (hx : x ∈ xs) : ∃ y ∈ ys, R x y := by
  obtain ⟨zs, hzs, hperm⟩ := h
  obtain ⟨y, hy, hxy⟩ := exists_of_mem_forall₂ (List.Forall₂.flip (R := fun y x => R x y) hzs) hx
  exact ⟨y, hperm.subset hy, hxy⟩

theorem eq_nil_iff (h : UpToOrder R xs ys) : xs = [] ↔ ys = [] := by
  obtain ⟨zs, hzs, hperm⟩ := h
  rw [← List.length_eq_zero_iff, ← List.length_eq_zero_iff, hzs.length_eq, hperm.length_eq]

theorem forall_mem_iff {p : α → Prop} {q : β → Prop} (h : UpToOrder R xs ys)
    (hpq : ∀ x ∈ xs, ∀ y ∈ ys, R x y → (p x ↔ q y)) : (∀ x ∈ xs, p x) ↔ ∀ y ∈ ys, q y := by
  constructor
  · intro hp y hy
    obtain ⟨x, hx, hxy⟩ := h.flip.exists_of_mem hy
    exact (hpq x hx y hy hxy).mp (hp x hx)
  · intro hq x hx
    obtain ⟨y, hy, hxy⟩ := h.exists_of_mem hx
    exact (hpq x hx y hy hxy).mpr (hq y hy)

/-- The lists that related elements give, one behind the other. -/
theorem flatMap {f : α → List γ} {g : β → List δ} (h : UpToOrder R xs ys)
    (hfg : ∀ x ∈ xs, ∀ y ∈ ys, R x y → UpToOrder P (f x) (g y)) :
    UpToOrder P (xs.flatMap f) (ys.flatMap g) := by
  obtain ⟨zs, hzs, hperm⟩ := h.imp_of_mem hfg
  have happend : UpToOrder P (xs.flatMap f) (zs.flatMap g) := by
    clear hperm h hfg
    induction hzs with
    | nil => exact .of_forall₂ .nil
    | cons hxy _ ih => exact hxy.append ih
  obtain ⟨us, hus, hperm'⟩ := happend
  exact ⟨us, hus, hperm'.trans (hperm.flatMap_right g)⟩

end UpToOrder

/-! ## The entries of maps -/

section maps
variable {α β : Type} {R : α → β → Prop} {a : List (String × α)} {b : List (String × β)}

/-- Two maps have the same keys, and related values behind each. -/
def MapsAlike (R : α → β → Prop) : List (String × α) → List (String × β) → Prop :=
  UpToOrder fun x y => x.1 = y.1 ∧ R x.2 y.2

theorem MapsAlike.keys_perm (h : MapsAlike R a b) : (a.map (·.1)).Perm (b.map (·.1)) := by
  obtain ⟨c, hc, hperm⟩ := UpToOrder.map (P := Eq) (f := Prod.fst) (g := Prod.fst) h
    fun _ _ hxy => hxy.1
  rw [List.forall₂_eq_eq_eq] at hc
  exact hc ▸ hperm

theorem MapsAlike.exists_mem {key : String} {x : α} (h : MapsAlike R a b) (hx : (key, x) ∈ a) :
    ∃ y, (key, y) ∈ b ∧ R x y := by
  obtain ⟨⟨_, y⟩, hy, rfl, hxy⟩ := UpToOrder.exists_of_mem h hx
  exact ⟨y, hy, hxy⟩

theorem MapsAlike.flip (h : MapsAlike R a b) : MapsAlike (fun y x => R x y) b a :=
  (UpToOrder.flip h).imp_of_mem fun _ _ _ _ hxy => ⟨hxy.1.symm, hxy.2⟩

theorem MapsAlike.lookup (h : MapsAlike R a b) (ha : (a.map (·.1)).Nodup) (key : String) :
    Option.Rel R (a.lookup key) (b.lookup key) := by
  have hkey := h.keys_perm.mem_iff (a := key)
  cases hx : a.lookup key with
  | none =>
    rw [lookup_eq_none_iff_keys.mpr (hkey.not.mp (lookup_eq_none_iff_keys.mp hx))]
    exact .none
  | some x =>
    obtain ⟨y, hy, hxy⟩ := h.exists_mem (mem_of_lookup hx)
    rw [(lookup_eq_some_iff_mem (h.keys_perm.nodup_iff.mp ha)).mpr hy]
    exact .some hxy

/-- Maps are alike when they have the same keys and look up related values. -/
theorem MapsAlike.of_lookup (hkeys : (a.map (·.1)).Perm (b.map (·.1))) (ha : (a.map (·.1)).Nodup)
    (h : ∀ key x y, a.lookup key = some x → b.lookup key = some y → R x y) : MapsAlike R a b := by
  have hb : (b.map (·.1)).Nodup := hkeys.nodup_iff.mp ha
  have hself : List.Forall₂ (fun key y => key = y.1) (b.map (·.1)) b := by
    rw [List.forall₂_map_left_iff, List.forall₂_same]
    exact fun _ _ => rfl
  obtain ⟨c, hc, hperm⟩ := List.perm_comp_forall₂ hkeys hself
  rw [List.forall₂_map_left_iff] at hc
  refine ⟨c, forall₂_imp_of_mem hc fun x hx y hy hxy => ⟨hxy, ?_⟩, hperm⟩
  refine h x.1 x.2 y.2 ((lookup_eq_some_iff_mem ha).mpr hx) ?_
  exact (lookup_eq_some_iff_mem hb).mpr (hxy ▸ hperm.subset hy)

end maps

/-! ## Values -/

namespace Value

/-- The same value, but for the order of the members of objects. -/
inductive Reordered : Value → Value → Prop
  | leaf {v : Value} (harray : ∀ items, v ≠ .array items)
      (hobject : ∀ members, v ≠ .object members) : Reordered v v
  | array {items items' : List Value} (hlength : items.length = items'.length)
      (h : ∀ (i : Nat) x y, items[i]? = some x → items'[i]? = some y → Reordered x y) :
      Reordered (.array items) (.array items')
  | object {members members' : List (String × Value)}
      (hkeys : (members.map (·.1)).Perm (members'.map (·.1)))
      (h : ∀ key x y, members.lookup key = some x → members'.lookup key = some y →
        Reordered x y) :
      Reordered (.object members) (.object members')

namespace Reordered

variable {v w : Value}

theorem forall₂_of_getElem? {R : Value → Value → Prop} {items items' : List Value}
    (hlength : items.length = items'.length)
    (h : ∀ (i : Nat) x y, items[i]? = some x → items'[i]? = some y → R x y) :
    List.Forall₂ R items items' := by
  refine List.forall₂_iff_get.mpr ⟨hlength, fun i hi hi' => ?_⟩
  exact h i _ _ (List.getElem?_eq_getElem hi) (List.getElem?_eq_getElem hi')

theorem refl (v : Value) : v.Reordered v := by
  induction hn : v.height using Nat.strongRecOn generalizing v with
  | ind n ih =>
    subst hn
    cases v with
    | array items =>
      refine .array rfl fun i x y hx hy => ?_
      obtain rfl := Option.some.inj (hx.symm.trans hy)
      exact ih _ (height_lt_of_mem_items (List.mem_of_getElem? hx)) x rfl
    | object members =>
      refine .object (.refl _) fun key x y hx hy => ?_
      obtain rfl := Option.some.inj (hx.symm.trans hy)
      exact ih _ (height_lt_of_mem_members (mem_of_lookup hx)) x rfl
    | _ => exact .leaf (by simp) (by simp)

/-- An object with its members in another order. -/
theorem of_perm {members members' : List (String × Value)} (h : members.Perm members')
    (hnodup : (members.map (·.1)).Nodup) :
    (Value.object members).Reordered (Value.object members') := by
  refine .object (h.map _) fun key x y hx hy => ?_
  have hy' := (lookup_eq_some_iff_mem hnodup).mpr (h.mem_iff.mpr (mem_of_lookup hy))
  obtain rfl := Option.some.inj (hx.symm.trans hy')
  exact refl x

/-- What stands in a reordered container is reordered, so it is proper if it was before. -/
theorem proper (h : v.Reordered w) (hv : v.Proper) : w.Proper := by
  induction h with
  | leaf _ _ => exact hv
  | array hlength _ ih =>
    have hitems := proper_array_iff.mp hv
    refine proper_array_iff.mpr fun y hy => ?_
    obtain ⟨x, hx, hxy⟩ := exists_of_mem_forall₂ (forall₂_of_getElem? hlength ih) hy
    exact hxy (hitems x hx)
  | object hkeys _ ih =>
    obtain ⟨hnodup, hmembers⟩ := proper_object_iff.mp hv
    refine proper_object_iff.mpr ⟨hkeys.nodup_iff.mp hnodup, fun entry hentry => ?_⟩
    obtain ⟨x, hx, hxy⟩ := (MapsAlike.of_lookup hkeys hnodup ih).flip.exists_mem hentry
    exact hxy (hmembers _ hx)

theorem exists_array {items : List Value} (h : v.Reordered w) (hv : v = .array items) :
    ∃ items', w = .array items' ∧ List.Forall₂ Reordered items items' := by
  cases h with
  | leaf harray _ => exact absurd hv (harray items)
  | array hlength h =>
    cases hv
    exact ⟨_, rfl, forall₂_of_getElem? hlength h⟩
  | object _ _ => cases hv

theorem exists_object {members : List (String × Value)} (h : v.Reordered w)
    (hv : v = .object members) (hnodup : (members.map (·.1)).Nodup) :
    ∃ members', w = .object members' ∧ MapsAlike Reordered members members' := by
  cases h with
  | leaf _ hobject => exact absurd hv (hobject members)
  | array _ _ => cases hv
  | object hkeys h =>
    cases hv
    exact ⟨_, rfl, .of_lookup hkeys hnodup h⟩

theorem ne_array (h : v.Reordered w) (hv : ∀ items, v ≠ .array items) (items : List Value) :
    w ≠ .array items := by
  cases h with
  | leaf _ _ => exact hv items
  | array _ _ => exact absurd rfl (hv _)
  | object _ _ => simp

theorem ne_object (h : v.Reordered w) (hv : ∀ members, v ≠ .object members)
    (members : List (String × Value)) : w ≠ .object members := by
  cases h with
  | leaf _ _ => exact hv members
  | array _ _ => simp
  | object _ _ => exact absurd rfl (hv _)

theorem eq_string_iff (h : v.Reordered w) (text : String) :
    v = .string text ↔ w = .string text := by
  cases h with
  | leaf _ _ => rfl
  | array _ _ => simp
  | object _ _ => simp

/-- No scalar type tells reordered values apart. -/
theorem admits_eq (h : v.Reordered w) (t : ScalarType) : t.admits v = t.admits w := by
  cases h with
  | leaf _ _ => rfl
  | array _ _ => cases t <;> rfl
  | object _ _ => cases t <;> rfl

end Reordered

end Value

end SchemaForms
