import Mathlib.Combinatorics.Pigeonhole
import Mathlib.Order.Monotone.Basic
import SchemaForms.Proofs.Validation.Depth

/-!
# Walks without end

A walk without end is one that exhausts every stack. It has a branch without end (`exists_branch`):
frames each entered from the one before, from each of which the walk has no end. Along a branch the
depth is not bounded (`Branch.exists_depth_gt`), and since there are so many definitions and no
more, some definition is entered again inside itself (`Branch.exists_ref_again`).
-/

namespace SchemaForms.Frame

variable {config : Config} {root : Schema} {found : Nat} {f : Frame}

/-- After so many violations, the walk from a frame on exhausts every stack. -/
def Exhausts (config : Config) (root : Schema) (f : Frame) (found : Nat) : Prop :=
  ∀ stack, (f.walk config root stack found).halt = some .stackExhausted

/-- Parts that exhaust every stack in turn: one of them does. -/
theorem exists_part_of_exhausts {parts : List Part}
    (h : ∀ stack, (walkParts config root stack parts found).halt = some .stackExhausted) :
    ∃ p ∈ parts, ∃ n, ∀ stack, (p.walk config root stack n).halt = some .stackExhausted := by
  induction parts generalizing found with
  | nil => cases h 0
  | cons p rest ih =>
    by_cases hp : ∀ stack, (p.walk config root stack found).halt = some .stackExhausted
    · exact ⟨p, List.mem_cons_self, found, hp⟩
    obtain ⟨enough, henough⟩ := not_forall.mp hp
    let after := found + (p.walk config root enough found).violations.length
    have hrest : ∀ stack, (walkParts config root stack rest after).halt = some .stackExhausted := by
      intro stack
      by_contra hne
      -- With the larger of both stacks neither the part nor the rest exhausts it.
      let more := max enough stack
      have hpart : p.walk config root more found = p.walk config root enough found :=
        part_agreesUnless rfl (fun _ _ => walk_agreesUnless_of_le (Nat.le_max_left _ _)) found henough
      have hafter :
          walkParts config root more rest after = walkParts config root stack rest after :=
        walkParts_agreesUnless_of_le (Nat.le_max_right _ _) rest after hne
      have hmore :
          ((p.walk config root more).andThen (walkParts config root more rest) found).halt =
            some .stackExhausted := h more
      cases hend : (p.walk config root enough found).halt with
      | some cause =>
        rw [Walk.andThen_of_halt (by rw [hpart]; exact hend), hpart] at hmore
        exact henough hmore
      | none =>
        rw [Walk.andThen_of_end (by rw [hpart]; exact hend), hpart] at hmore
        exact hne (hafter ▸ hmore)
    obtain ⟨q, hq, n, hexhausts⟩ := ih hrest
    exact ⟨q, List.mem_cons_of_mem _ hq, n, hexhausts⟩

/-- A walk without end goes on to one without end. -/
theorem Regular.exists_goes_of_exhausts (hcheck : root.check = .ok ()) (hf : Regular root f)
    (h : f.Exhausts config root found) :
    ∃ g n, Goes config root f g ∧ g.Exhausts config root n := by
  have hparts : ∀ stack,
      (walkParts config root stack (f.parts config root) found).halt = some .stackExhausted := by
    intro stack
    rw [← walk_succ]
    exact h (stack + 1)
  obtain ⟨p, hp, n, hexhausts⟩ := exists_part_of_exhausts hparts
  cases (hf.mem_parts_iff hcheck).mp hp with
  | rejects _ => cases Walk.eq_errorLimit_of_report (hexhausts 0)
  | tooDeep _ _ => cases hexhausts 0
  | @enters g _ => exact ⟨g, n, hp, hexhausts⟩

/-- The frames of a walk without end, each entered from the one before. -/
structure Branch (config : Config) (root : Schema) (frames : Nat → Frame) : Prop where
  goes : ∀ i, Goes config root (frames i) (frames (i + 1))
  exhausts : ∀ i, ∃ found, (frames i).Exhausts config root found

theorem Regular.exists_branch (hcheck : root.check = .ok ()) (hf : Regular root f)
    (h : f.Exhausts config root found) : ∃ frames, frames 0 = f ∧ Branch config root frames := by
  let Stuck := {g : Frame // Regular root g ∧ ∃ n, g.Exhausts config root n}
  have hnext : ∀ g : Stuck, ∃ g' : Stuck, Goes config root g.1 g'.1 := by
    rintro ⟨g, hg, n, hexhausts⟩
    obtain ⟨g', n', hgoes, hexhausts'⟩ := hg.exists_goes_of_exhausts hcheck hexhausts
    exact ⟨⟨g', hg.of_enters (hg.enters_of_goes hcheck hgoes), n', hexhausts'⟩, hgoes⟩
  choose next hgoes using hnext
  let frames (i : Nat) : Stuck := next^[i] ⟨f, hf, found, h⟩
  refine ⟨fun i => (frames i).1, rfl, fun i => ?_, fun i => (frames i).2.2⟩
  show Goes config root (frames i).1 (frames (i + 1)).1
  rw [show frames (i + 1) = next (frames i) from Function.iterate_succ_apply' next i _]
  exact hgoes (frames i)

section branch

variable {frames : Nat → Frame}

theorem Branch.regular (hcheck : root.check = .ok ()) (hb : Branch config root frames)
    (h : Regular root (frames 0)) (i : Nat) : Regular root (frames i) := by
  induction i with
  | zero => exact h
  | succ i ih => exact ih.of_enters (ih.enters_of_goes hcheck (hb.goes i))

theorem Branch.enters (hcheck : root.check = .ok ()) (hb : Branch config root frames)
    (h : Regular root (frames 0)) (i : Nat) : (frames i).Enters config root (frames (i + 1)) :=
  (hb.regular hcheck h i).enters_of_goes hcheck (hb.goes i)

/-- The references that are open along a branch are not bounded. -/
theorem Branch.exists_depth_gt (hcheck : root.check = .ok ()) (hb : Branch config root frames)
    (h : Regular root (frames 0)) (limit : Nat) : ∃ i, limit < (frames i).location.depth := by
  by_contra hnone
  have hdepth : ∀ i, (frames i).location.depth ≤ limit := fun i =>
    Nat.le_of_not_lt fun hlt => hnone ⟨i, hlt⟩
  let top := Schema.heightOfEntries (entries root.definitions)
  let weight (i : Nat) := (frames i).measure limit top
  have hdown : ∀ i, weight i + i ≤ weight 0 := by
    intro i
    induction i with
    | zero => exact Nat.le_refl _
    | succ i ih =>
      have hlt : weight (i + 1) < weight i :=
        (hb.enters hcheck h i).measure_lt (hdepth (i + 1)) fun name s hs =>
          (Schema.height_lt_heightOfEntries hs).le
      omega
  have := hdown (weight 0 + 1)
  omega

/-- Beyond each place of a branch there is a reference. -/
theorem Branch.exists_ref_after (hcheck : root.check = .ok ()) (hb : Branch config root frames)
    (h : Regular root (frames 0)) (start : Nat) :
    ∃ i, start < i ∧ ∃ name, (frames i).schema.ref = some name := by
  by_contra hnone
  obtain ⟨i, hi⟩ := hb.exists_depth_gt hcheck h (frames (start + 1)).location.depth
  have hmono : Monotone fun i => (frames i).location.depth :=
    monotone_nat_of_le_succ fun i => (hb.enters hcheck h i).depth_le
  have hconst : ∀ k, (frames (start + 1 + k)).location.depth =
      (frames (start + 1)).location.depth := by
    intro k
    induction k with
    | zero => rfl
    | succ k ih =>
      rcases (hb.enters hcheck h (start + 1 + k)).child_or_follow with
        ⟨hsame, _⟩ | ⟨name, _, href, _⟩
      · exact hsame.trans ih
      · exact absurd ⟨_, by omega, name, href⟩ hnone
  have hle : (frames i).location.depth ≤ (frames (start + 1 + i)).location.depth :=
    hmono (by omega)
  rw [hconst i] at hle
  omega

/-- Some definition is referred to twice along a branch: the second time inside itself. -/
theorem Branch.exists_ref_again (hcheck : root.check = .ok ()) (hb : Branch config root frames)
    (h : Regular root (frames 0)) :
    ∃ i j name, i < j ∧ (frames i).schema.ref = some name ∧ (frames j).schema.ref = some name := by
  let refs := {i | ∃ name, (frames i).schema.ref = some name}
  have hinfinite : refs.Infinite := Set.infinite_of_forall_exists_gt fun start => by
    obtain ⟨i, hlt, hi⟩ := hb.exists_ref_after hcheck h start
    exact ⟨i, hi, hlt⟩
  have hmaps : Set.MapsTo (fun i => (frames i).schema.ref) refs
      (some '' {name | name ∈ keys root.definitions}) := by
    rintro i ⟨name, hname⟩
    exact ⟨name, ((hb.regular hcheck h i).correct hcheck).ref name hname, hname.symm⟩
  have hfinite : (some '' {name | name ∈ keys root.definitions}).Finite :=
    (List.finite_toSet _).image _
  obtain ⟨i, ⟨name, hi⟩, j, _, hlt, heq⟩ := hinfinite.exists_lt_map_eq_of_mapsTo hmaps hfinite
  exact ⟨i, j, name, hlt, hi, heq.symm.trans hi⟩

end branch

end SchemaForms.Frame
