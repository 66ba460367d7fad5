import Mathlib.Data.List.Forall2
import SchemaForms.Validation.Trace

/-!
# Walks one after another

Laws of `Walk.andThen` and `Walk.inTurn`: what walks in turn find and why they halt comes from one
of them (`mem_violations_inTurn`, `exists_halt_inTurn`), they find nothing and end when each of
them does (`inTurn_eq_clean_iff`), and a compositional relation between single walks holds between
the walks in turn (`Compositional.inTurn`). One such relation is that a change only shows where a
walk halts for some cause (`AgreesUnless`).
-/

namespace SchemaForms.Walk

variable {first second : Walk} {walks : List Walk} {found : Nat}

theorem andThen_of_halt {cause : Halt} (h : (first found).halt = some cause) :
    first.andThen second found = first found := by
  rw [andThen]
  split
  case h_1 violations c heq => exact heq.symm
  case h_2 violations heq => simp [heq] at h

theorem andThen_of_end (h : (first found).halt = none) :
    first.andThen second found =
      ⟨(first found).violations ++ (second (found + (first found).violations.length)).violations,
        (second (found + (first found).violations.length)).halt⟩ := by
  rw [andThen]
  split
  case h_1 violations c heq => simp [heq] at h
  case h_2 violations heq => simp [heq]

/-- Two walks one after the other come to their end when both do. -/
theorem andThen_eq_end_iff {violations : List Violation} :
    first.andThen second found = ⟨violations, none⟩ ↔
      ∃ before after, first found = ⟨before, none⟩ ∧
        second (found + before.length) = ⟨after, none⟩ ∧ violations = before ++ after := by
  cases h : (first found).halt with
  | some cause =>
    rw [andThen_of_halt h]
    constructor
    · intro heq
      simp [heq] at h
    · rintro ⟨before, after, heq, -, -⟩
      simp [heq] at h
  | none =>
    rw [andThen_of_end h, Trace.mk.injEq]
    constructor
    · rintro ⟨rfl, hend⟩
      exact ⟨_, _, congrArg (Trace.mk _) h, congrArg (Trace.mk _) hend, rfl⟩
    · rintro ⟨before, after, hfirst, hsecond, rfl⟩
      simp [hfirst, hsecond]

theorem done_andThen (w : Walk) : done.andThen w = w := by
  funext found
  rw [andThen_of_end rfl]
  simp [done]

theorem andThen_done (w : Walk) : w.andThen done = w := by
  funext found
  cases h : (w found).halt with
  | some cause => exact andThen_of_halt h
  | none =>
    rw [andThen_of_end h]
    simp [done, ← h]

theorem andThen_assoc (a b c : Walk) : (a.andThen b).andThen c = a.andThen (b.andThen c) := by
  funext found
  cases ha : (a found).halt with
  | some cause =>
    have hab : a.andThen b found = a found := andThen_of_halt ha
    rw [andThen_of_halt (hab ▸ ha), hab, andThen_of_halt ha]
  | none =>
    have hab : a.andThen b found = _ := andThen_of_end ha
    cases hb : (b (found + (a found).violations.length)).halt with
    | some cause =>
      rw [andThen_of_halt (by rw [hab]; exact hb), hab, andThen_of_end ha, andThen_of_halt hb]
    | none =>
      rw [andThen_of_end (by rw [hab]; exact hb), hab, andThen_of_end ha, andThen_of_end hb]
      simp [Nat.add_assoc, List.append_assoc]

theorem inTurn_append (a b : List Walk) : inTurn (a ++ b) = (inTurn a).andThen (inTurn b) := by
  induction a with
  | nil => exact (done_andThen _).symm
  | cons w rest ih => rw [List.cons_append, inTurn, ih, inTurn, andThen_assoc]

theorem inTurn_singleton (w : Walk) : inTurn [w] = w := andThen_done w

/-! ## Where the findings of walks in turn come from -/

theorem mem_violations_andThen {v : Violation} (h : v ∈ (first.andThen second found).violations) :
    v ∈ (first found).violations ∨ ∃ n, v ∈ (second n).violations := by
  cases hf : (first found).halt with
  | some cause =>
    rw [andThen_of_halt hf] at h
    exact .inl h
  | none =>
    rw [andThen_of_end hf] at h
    exact (List.mem_append.mp h).imp id fun h => ⟨_, h⟩

theorem mem_violations_inTurn {v : Violation} (h : v ∈ (inTurn walks found).violations) :
    ∃ w ∈ walks, ∃ n, v ∈ (w n).violations := by
  induction walks generalizing found with
  | nil => cases h
  | cons w rest ih =>
    rcases mem_violations_andThen h with h | ⟨n, h⟩
    · exact ⟨w, by simp, found, h⟩
    · obtain ⟨w', hw', n, h⟩ := ih h
      exact ⟨w', by simp [hw'], n, h⟩

theorem exists_halt_andThen {cause : Halt} (h : (first.andThen second found).halt = some cause) :
    (first found).halt = some cause ∨ ∃ n, (second n).halt = some cause := by
  cases hf : (first found).halt with
  | some c =>
    rw [andThen_of_halt hf, hf] at h
    exact .inl h
  | none =>
    rw [andThen_of_end hf] at h
    exact .inr ⟨_, h⟩

theorem exists_halt_inTurn {cause : Halt} (h : (inTurn walks found).halt = some cause) :
    ∃ w ∈ walks, ∃ n, (w n).halt = some cause := by
  induction walks generalizing found with
  | nil => cases h
  | cons w rest ih =>
    rcases exists_halt_andThen h with h | ⟨n, h⟩
    · exact ⟨w, by simp, found, h⟩
    · obtain ⟨w', hw', n, h⟩ := ih h
      exact ⟨w', by simp [hw'], n, h⟩

/-- Walks in turn find nothing and end exactly when each of them does. -/
theorem inTurn_eq_clean_iff :
    inTurn walks found = ⟨[], none⟩ ↔ ∀ w ∈ walks, w found = ⟨[], none⟩ := by
  induction walks with
  | nil => simp [inTurn, done]
  | cons w rest ih =>
    rw [inTurn, List.forall_mem_cons, ← ih]
    cases hw : (w found).halt with
    | some cause =>
      rw [andThen_of_halt hw]
      simp only [iff_self_and]
      intro h
      simp [h] at hw
    | none =>
      rw [andThen_of_end hw]
      simp only [Trace.mk.injEq, List.append_eq_nil_iff]
      constructor
      · rintro ⟨⟨hfirst, hrest⟩, hhalt⟩
        rw [hfirst, List.length_nil, Nat.add_zero] at hrest hhalt
        exact ⟨congrArg₂ Trace.mk hfirst hw, congrArg₂ Trace.mk hrest hhalt⟩
      · rintro ⟨hfirst, hrest⟩
        simp [hfirst, hrest]

/-! ## Walks that fill the limit -/

theorem eq_errorLimit_of_report {limit : Nat} {v : Violation} {cause : Halt}
    (h : (report limit v found).halt = some cause) : cause = .errorLimit := by
  rw [report] at h
  split_ifs at h
  exact (Option.some.inj h).symm

/-- A walk that halts for the limit on violations found one. -/
def CountsLimit (w : Walk) : Prop :=
  ∀ found, (w found).halt = some .errorLimit → (w found).violations ≠ []

theorem CountsLimit.inTurn (h : ∀ w ∈ walks, w.CountsLimit) : (inTurn walks).CountsLimit := by
  induction walks with
  | nil => exact fun _ hhalt => by cases hhalt
  | cons w rest ih =>
    intro found hhalt
    rw [Walk.inTurn] at hhalt ⊢
    cases hw : (w found).halt with
    | some cause =>
      rw [andThen_of_halt hw] at hhalt ⊢
      exact h w (by simp) found hhalt
    | none =>
      rw [andThen_of_end hw] at hhalt ⊢
      have := ih (fun w' hw' => h w' (by simp [hw'])) _ hhalt
      simp [this]

/-! ## Relations between walks -/

/-- A relation between walks that goes over from single walks to walks in turn. -/
structure Compositional (R : Walk → Walk → Prop) : Prop where
  done : R done done
  andThen : ∀ {first first' second second' : Walk}, R first first' → R second second' →
    R (first.andThen second) (first'.andThen second')

theorem Compositional.inTurn {R : Walk → Walk → Prop} {walks' : List Walk} (hR : Compositional R)
    (h : List.Forall₂ R walks walks') : R (inTurn walks) (inTurn walks') := by
  induction h with
  | nil => exact hR.done
  | cons hw _ ih => exact hR.andThen hw ih

/-! ## Walks that agree up to a halt -/

/-- The second walk does what the first one does, unless the first halts for this cause. -/
def AgreesUnless (cause : Halt) (first second : Walk) : Prop :=
  ∀ found, (first found).halt ≠ some cause → second found = first found

namespace AgreesUnless

variable {cause : Halt} {first' second' : Walk}

theorem refl (w : Walk) : AgreesUnless cause w w := fun _ _ => rfl

theorem halt (w : Walk) : AgreesUnless cause (halt cause) w := fun _ h => absurd rfl h

theorem andThen (hfirst : AgreesUnless cause first first')
    (hsecond : AgreesUnless cause second second') :
    AgreesUnless cause (first.andThen second) (first'.andThen second') := by
  intro found h
  cases hf : (first found).halt with
  | some c =>
    rw [andThen_of_halt hf] at h ⊢
    have heq := hfirst found h
    rw [andThen_of_halt (heq ▸ hf), heq]
  | none =>
    have heq := hfirst found (by simp [hf])
    rw [andThen_of_end hf] at h ⊢
    rw [andThen_of_end (heq ▸ hf), heq, hsecond _ h]

theorem compositional (cause : Halt) : Compositional (AgreesUnless cause) :=
  ⟨refl done, andThen⟩

end AgreesUnless

end SchemaForms.Walk
