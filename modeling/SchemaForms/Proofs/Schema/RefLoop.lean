import Mathlib.Data.List.Chain
import Mathlib.Data.List.Perm.Subperm
import SchemaForms.Proofs.Schema.Correct

/-!
# Loops of references

A definition may itself be a reference to another one. `RefLoop` are the names from which one gets,
by such definitions alone, to a name that comes round again; a recursive definition with some other
keyword on the way is none. Without a loop, the references that stand directly behind one another
from a node on are no more than the definitions (`exists_refLength_le`), since any longer chain has
a name twice.
-/

namespace SchemaForms.Schema

open Relation

variable {root s : Schema} {name next : String}

/-- The definition of the first name is itself a reference, to the second name. -/
def RefersTo (root : Schema) (name next : String) : Prop :=
  ∃ s, (entries root.definitions).lookup name = some s ∧ s.ref = some next

/-- The chain of definitions from the name on, each itself a reference, comes to a name that it
comes back to. -/
def RefLoop (root : Schema) (name : String) : Prop :=
  ∃ again, ReflTransGen root.RefersTo name again ∧ TransGen root.RefersTo again again

/-- In a loop the chain goes on, and stays in a loop. -/
theorem RefLoop.exists_next (h : root.RefLoop name) :
    ∃ next, root.RefersTo name next ∧ root.RefLoop next := by
  obtain ⟨again, hto, hround⟩ := h
  rcases ReflTransGen.cases_head hto with rfl | ⟨next, hnext, hrest⟩
  · obtain ⟨next, hnext, hback⟩ := TransGen.head'_iff.mp hround
    exact ⟨next, hnext, name, hback, hround⟩
  · exact ⟨next, hnext, again, hrest, hround⟩

theorem RefLoop.of_refersTo (h : root.RefersTo name next) (hloop : root.RefLoop next) :
    root.RefLoop name := by
  obtain ⟨again, hto, hround⟩ := hloop
  exact ⟨again, .head h hto, hround⟩

/-- A chain that has a name twice is in a loop from its first name on. -/
theorem refLoop_of_not_nodup {names : List String}
    (hchain : List.IsChain root.RefersTo (name :: names)) (h : ¬ (name :: names).Nodup) :
    root.RefLoop name := by
  induction names generalizing name with
  | nil => exact absurd (List.nodup_singleton name) h
  | cons next rest ih =>
    obtain ⟨hnext, hrest⟩ := List.isChain_cons_cons.mp hchain
    by_cases hagain : name ∈ next :: rest
    · have hpairwise : (name :: next :: rest).Pairwise (TransGen root.RefersTo) :=
        List.isChain_iff_pairwise.mp (hchain.imp fun _ _ => TransGen.single)
      exact ⟨name, .refl, List.rel_of_pairwise_cons hpairwise hagain⟩
    · have hnodup : ¬ (next :: rest).Nodup := fun hnodup => h (List.nodup_cons.mpr ⟨hagain, hnodup⟩)
      exact .of_refersTo hnext (ih hrest hnodup)

/-- From the node on, so many references stand directly behind one another in front of a node that
is none. -/
inductive RefLength (root : Schema) : Schema → Nat → Prop
  | other {s : Schema} (h : s.ref = none) : RefLength root s 0
  | ref {s target : Schema} {name : String} {n : Nat} (h : s.ref = some name)
      (htarget : (entries root.definitions).lookup name = some target)
      (hn : RefLength root target n) : RefLength root s (n + 1)

/-- Behind the reference there is one less. -/
theorem RefLength.exists_of_ref {target : Schema} {n : Nat} (h : RefLength root s n)
    (href : s.ref = some name) (htarget : (entries root.definitions).lookup name = some target) :
    ∃ m, n = m + 1 ∧ RefLength root target m := by
  cases h with
  | other hnone =>
    rw [hnone] at href
    cases href
  | @ref _ _ _ m href' htarget' hm =>
    obtain rfl := Option.some.inj (href.symm.trans href')
    obtain rfl := Option.some.inj (htarget.symm.trans htarget')
    exact ⟨m, rfl, hm⟩

/-- A reference at a checked node names a definition, which is a checked node too. -/
theorem CheckedNode.exists_target (hcheck : root.check = .ok ()) (hs : CheckedNode root s)
    (href : s.ref = some name) :
    name ∈ keys root.definitions ∧ ∃ target,
      (entries root.definitions).lookup name = some target ∧ CheckedNode root target := by
  have hkey := (hs.correct hcheck).ref name href
  obtain ⟨target, htarget⟩ := exists_lookup_of_mem_keys hkey
  exact ⟨hkey, target, htarget, .definition (mem_of_lookup htarget)⟩

/-- The references from a node on come to their end, or they go on for any number of names. -/
theorem exists_refLength_or_chain (hcheck : root.check = .ok ()) (n : Nat)
    (hs : CheckedNode root s) (href : s.ref = some name) :
    (∃ m, m ≤ n ∧ RefLength root s m) ∨
      ∃ rest, rest.length = n ∧ List.IsChain root.RefersTo (name :: rest) ∧
        ∀ x ∈ name :: rest, x ∈ keys root.definitions := by
  obtain ⟨hkey, target, htarget, hchecked⟩ := hs.exists_target hcheck href
  induction n generalizing s name target with
  | zero => exact .inr ⟨[], rfl, .singleton name, by simpa using hkey⟩
  | succ n ih =>
    cases hnext : target.ref with
    | none => exact .inl ⟨1, Nat.succ_le_succ (Nat.zero_le n), .ref href htarget (.other hnext)⟩
    | some next =>
      obtain ⟨hkey', target', htarget', hchecked'⟩ := hchecked.exists_target hcheck hnext
      rcases ih hchecked hnext hkey' target' htarget' hchecked' with
        ⟨m, hm, hlength⟩ | ⟨rest, hlength, hchain, hkeys⟩
      · exact .inl ⟨m + 1, Nat.succ_le_succ hm, .ref href htarget hlength⟩
      · refine .inr ⟨next :: rest, by simp [hlength], ?_, ?_⟩
        · exact List.isChain_cons_cons.mpr ⟨⟨target, htarget, hnext⟩, hchain⟩
        · exact List.forall_mem_cons.mpr ⟨hkey, hkeys⟩

/-- **Without a loop no more references stand directly behind one another than there are
definitions.** -/
theorem exists_refLength_le (hcheck : root.check = .ok ()) (hs : CheckedNode root s)
    (hloop : ∀ name, s.ref = some name → ¬ root.RefLoop name) :
    ∃ n, n ≤ (entries root.definitions).length ∧ RefLength root s n := by
  cases href : s.ref with
  | none => exact ⟨0, Nat.zero_le _, .other href⟩
  | some name =>
    refine (exists_refLength_or_chain hcheck _ hs href).resolve_right ?_
    rintro ⟨rest, hlength, hchain, hkeys⟩
    refine hloop name href (refLoop_of_not_nodup hchain fun hnodup => ?_)
    -- The chain has one name more than there are definitions.
    have hle : (name :: rest).length ≤ (keys root.definitions).length :=
      (hnodup.subperm hkeys).length_le
    rw [List.length_cons, hlength, keys, List.length_map] at hle
    omega

end SchemaForms.Schema
