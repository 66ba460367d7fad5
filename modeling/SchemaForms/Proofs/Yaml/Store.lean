import Mathlib.Order.Basic
import SchemaForms.Proofs.Value.Showable
import SchemaForms.Yaml.Store

/-!
# What a store comes to

A typing of a store says of each container what holds of the value that it will come to, also while
the container is not filled yet, or is a part of itself. In a store that keeps to its typing
(`Store.Holds`), a part comes to a value that is as it was said (`Store.Holds.value`), if what is
said passes from the parts of a value to the whole (`Hereditary`). A container inside itself becomes
a leaf on the way, so the leaves that stand for containers have to be as it was said too. Tuples and
sets are not typed.
-/

namespace SchemaForms.Yaml

/-- It holds of null, of the leaves that stand for a container around them, and of a container when
it holds of what stands in it. -/
structure Hereditary (V : Value → Prop) : Prop where
  null : V .null
  again : ∀ kind level, V (.foreign (.again kind level))
  array : ∀ items, (∀ x ∈ items, V x) → V (.array items)
  object : ∀ members, (∀ entry ∈ members, V entry.2) → V (.object members)

/-- What holds of the values of containers, by their numbers. -/
structure Store.Typing where
  types : List (Value → Prop)

namespace Store.Typing

/-- A typing goes on with containers that are new. -/
instance : Preorder Typing where
  le t t' := t.types <+: t'.types
  le_refl _ := List.prefix_rfl
  le_trans _ _ _ := List.IsPrefix.trans

variable {t t' : Typing} {n : Nat} {U V : Value → Prop}

theorem type_mono (ht : t ≤ t') (h : t.types[n]? = some V) : t'.types[n]? = some V := by
  obtain ⟨rest, hrest⟩ := ht
  rw [← hrest, List.getElem?_append_left (List.getElem?_eq_some_iff.mp h).1, h]

/-- The typing of one more container. -/
def push (t : Typing) (V : Value → Prop) : Typing := ⟨t.types ++ [V]⟩

theorem le_push (t : Typing) (V : Value → Prop) : t ≤ t.push V := List.prefix_append _ _

theorem type_push (t : Typing) (V : Value → Prop) :
    (t.push V).types[t.types.length]? = some V := List.getElem?_concat_length

theorem type_push_cases (h : (t.push U).types[n]? = some V) :
    t.types[n]? = some V ∨ n = t.types.length ∧ V = U := by
  rcases Nat.lt_or_ge n t.types.length with hn | hn
  · rw [push, List.getElem?_append_left hn] at h
    exact .inl h
  · rw [push, List.getElem?_append_right hn, List.getElem?_singleton] at h
    split at h
    · cases h
      exact .inr ⟨by omega, rfl⟩
    · cases h

end Store.Typing

open Store (Typing)

variable {t t' : Typing} {U V : Value → Prop}

/-- A part that is a value has the property, and one that is a container is said to have it. -/
def Part.Holds (t : Typing) (V : Value → Prop) : Part → Prop
  | .value v => V v
  | .container n => ∃ U, t.types[n]? = some U ∧ ∀ v, U v → V v

namespace Part.Holds

variable {part : Part}

theorem container {n : Nat} (h : t.types[n]? = some V) : (Part.container n).Holds t V :=
  ⟨V, h, fun _ => id⟩

theorem imp (h : part.Holds t U) (hUV : ∀ v, U v → V v) : part.Holds t V := by
  cases part with
  | value v => exact hUV v h
  | container n =>
    obtain ⟨W, hW, hWU⟩ := h
    exact ⟨W, hW, fun v hv => hUV v (hWU v hv)⟩

theorem mono (ht : t ≤ t') (h : part.Holds t V) : part.Holds t' V := by
  cases part with
  | value v => exact h
  | container n =>
    obtain ⟨W, hW, hWV⟩ := h
    exact ⟨W, t.type_mono ht hW, hWV⟩

end Part.Holds

/-- A list or an object of which every part has the property. -/
def Container.Holds (t : Typing) (V : Value → Prop) : Container → Prop
  | .list parts => ∀ part ∈ parts, part.Holds t V
  | .object members => ∀ entry ∈ members, entry.2.Holds t V
  | .tuple _ | .set _ => False

namespace Container.Holds

variable {c : Container}

theorem mono (ht : t ≤ t') (h : c.Holds t V) : c.Holds t' V := by
  cases c with
  | list parts => exact fun part hpart => (h part hpart).mono ht
  | object members => exact fun entry hentry => (h entry hentry).mono ht
  | tuple _ => exact h.elim
  | set _ => exact h.elim

theorem assemble (hV : Hereditary V) (h : c.Holds t V) {value : Part → Value}
    (hvalue : ∀ part, part.Holds t V → V (value part)) : V (c.assemble value) := by
  cases c with
  | list parts =>
    refine hV.array _ fun x hx => ?_
    obtain ⟨part, hpart, rfl⟩ := List.mem_map.mp hx
    exact hvalue part (h part hpart)
  | object members =>
    refine hV.object _ fun entry hentry => ?_
    obtain ⟨member, hmember, rfl⟩ := List.mem_map.mp hentry
    exact hvalue member.2 (h member hmember)
  | tuple _ => exact h.elim
  | set _ => exact h.elim

theorem mapParts (h : c.Holds t V) {f : Part → Part}
    (hf : ∀ part, part.Holds t V → (f part).Holds t V) : (c.mapParts f).Holds t V := by
  cases c with
  | list parts =>
    intro part hpart
    obtain ⟨old, hold, rfl⟩ := List.mem_map.mp hpart
    exact hf old (h old hold)
  | object members =>
    intro entry hentry
    obtain ⟨old, hold, rfl⟩ := List.mem_map.mp hentry
    exact hf old.2 (h old hold)
  | tuple _ => exact h.elim
  | set _ => exact h.elim

theorem of_complete? (hV : Hereditary V) (h : c.Holds t V) {v : Value}
    (hv : c.complete? = some v) : V v := by
  unfold complete? at hv
  split at hv
  · cases hv
    refine h.assemble hV fun part hpart => ?_
    cases part with
    | value v => exact hpart
    | container n => exact hV.null
  · cases hv

end Container.Holds

/-- Every container of the store is a list or an object that keeps to what is said of it. -/
structure Store.Holds (t : Typing) (s : Store) : Prop where
  length : t.types.length = s.size
  hereditary : ∀ (n : Nat) (V : Value → Prop), t.types[n]? = some V → Hereditary V
  container : ∀ (n : Nat) (V : Value → Prop), t.types[n]? = some V → (s.container n).Holds t V

namespace Store.Holds

variable {s : Store} {c : Container} {n : Nat}

theorem empty : Holds ⟨[]⟩ #[] := ⟨rfl, fun _ _ h => by simp at h, fun _ _ h => by simp at h⟩

theorem push (h : s.Holds t) (hV : Hereditary V) (hc : c.Holds t V) :
    Holds (t.push V) (s.push c) where
  length := by simp [Typing.push, h.length]
  hereditary n W hW := by
    rcases Typing.type_push_cases hW with hold | ⟨-, rfl⟩
    · exact h.hereditary n W hold
    · exact hV
  container n W hW := by
    have hle : t ≤ t.push V := t.le_push V
    unfold Store.container
    rw [Array.getD_eq_getD_getElem?, Array.getElem?_push]
    rcases Typing.type_push_cases hW with hold | ⟨rfl, rfl⟩
    · have hn : n < s.size := h.length ▸ (List.getElem?_eq_some_iff.mp hold).1
      rw [if_neg (Nat.ne_of_lt hn), ← Array.getD_eq_getD_getElem?]
      exact (h.container n W hold).mono hle
    · rw [if_pos h.length]
      exact hc.mono hle

theorem setIfInBounds (h : s.Holds t) (hn : t.types[n]? = some V) (hc : c.Holds t V) :
    Holds t (s.setIfInBounds n c) where
  length := by rw [h.length, Array.size_setIfInBounds]
  hereditary := h.hereditary
  container m W hW := by
    have hlt : n < s.size := h.length ▸ (List.getElem?_eq_some_iff.mp hn).1
    unfold Store.container
    rw [Array.getD_eq_getD_getElem?]
    by_cases heq : n = m
    · subst heq
      rw [hn, Option.some.injEq] at hW
      rw [Array.getElem?_setIfInBounds_self_of_lt hlt]
      exact hW ▸ hc
    · rw [Array.getElem?_setIfInBounds_ne heq, ← Array.getD_eq_getD_getElem?]
      exact h.container m W hW

theorem settleOnce (h : s.Holds t) : s.settleOnce.Holds t where
  length := by rw [h.length, Store.settleOnce, Array.size_map]
  hereditary := h.hereditary
  container n V hV := by
    have hn : n < s.size := h.length ▸ (List.getElem?_eq_some_iff.mp hV).1
    have hold : s[n] = s.container n := by
      rw [Store.container, Array.getD_eq_getD_getElem?, Array.getElem?_eq_getElem hn,
        Option.getD_some]
    unfold Store.settleOnce Store.container
    rw [Array.getD_eq_getD_getElem?, Array.getElem?_map, Array.getElem?_eq_getElem hn, hold]
    refine (h.container n V hV).mapParts fun part hpart => ?_
    cases part with
    | value v => exact hpart
    | container m =>
      obtain ⟨U, hU, hUV⟩ := hpart
      show Part.Holds t V (((s.map Container.complete?).getD m none).elim (.container m) .value)
      cases hm : (s.map Container.complete?).getD m none with
      | none => exact ⟨U, hU, hUV⟩
      | some v =>
        refine hUV v ((h.container m U hU).of_complete? (h.hereditary m U hU) ?_)
        rw [Array.getD_eq_getD_getElem?, Array.getElem?_map] at hm
        rw [Store.container, Array.getD_eq_getD_getElem?]
        cases hs : s[m]? with
        | none => simp [hs] at hm
        | some c => simpa [hs] using hm

theorem settle (rounds : Nat) (h : s.Holds t) : (Store.settle rounds s).Holds t := by
  induction rounds generalizing s with
  | zero => exact h
  | succ rounds ih =>
    rw [Store.settle]
    split
    · exact ih h.settleOnce
    · exact h.settleOnce

/-- The fuel decides only where a container that is still to be entered is left as null. -/
theorem valueIn (h : s.Holds t) (fuel : Nat) (around : List Nat) {part : Part}
    (hpart : part.Holds t V) : V (s.valueIn fuel around part) := by
  induction fuel generalizing around part V with
  | zero =>
    cases part with
    | value v => exact hpart
    | container n =>
      obtain ⟨U, hU, hUV⟩ := hpart
      exact hUV _ (h.hereditary n U hU).null
  | succ fuel ih =>
    cases part with
    | value v => exact hpart
    | container n =>
      obtain ⟨U, hU, hUV⟩ := hpart
      have hhereditary : Hereditary U := h.hereditary n U hU
      have hcontainer : (s.container n).Holds t U := h.container n U hU
      refine hUV _ ?_
      unfold Store.valueIn
      dsimp only
      split
      · exact hhereditary.again _ _
      · exact hhereditary.again _ _
      · exact hcontainer.assemble hhereditary fun part => ih around
      · exact hcontainer.assemble hhereditary fun part => ih (n :: around)

theorem value (h : s.Holds t) {part : Part} (hpart : part.Holds t V) : V (s.value part) :=
  (h.settle s.size).valueIn _ _ hpart

end Store.Holds

end SchemaForms.Yaml
