import Mathlib.Data.List.Perm.Basic
import Mathlib.Data.String.Basic
import SchemaForms.Report
import SchemaForms.Proofs.Pointer

/-!
# The canonical order of a report

Different paths have different pointers (`pointer_injective`), so the canonical order tells all
violations apart, and a sorted report depends on the violations only, not on the order in which they
were found (`Report.sorted_eq_iff_perm`).
-/

namespace SchemaForms

/-! ## The order of violations -/

namespace Violation

variable {a b c : Violation}

theorem before_iff :
    a.before b = true ↔ a.schemaPointer < b.schemaPointer ∨
      a.schemaPointer = b.schemaPointer ∧ a.instancePointer ≤ b.instancePointer := by
  simp [before]

theorem before_trans (hab : a.before b = true) (hbc : b.before c = true) :
    a.before c = true := by
  rw [before_iff] at hab hbc ⊢
  rcases hab with hab | ⟨hab, hab'⟩
  · rcases hbc with hbc | ⟨hbc, -⟩
    · exact .inl (hab.trans hbc)
    · exact .inl (hbc ▸ hab)
  · rw [hab]
    exact hbc.imp id fun ⟨hbc, hbc'⟩ => ⟨hbc, hab'.trans hbc'⟩

theorem before_total (a b : Violation) : (a.before b || b.before a) = true := by
  rw [Bool.or_eq_true, before_iff, before_iff]
  rcases lt_trichotomy a.schemaPointer b.schemaPointer with h | h | h
  · exact .inl (.inl h)
  · exact (le_total a.instancePointer b.instancePointer).imp (fun hle => .inr ⟨h, hle⟩)
      fun hle => .inr ⟨h.symm, hle⟩
  · exact .inr (.inl h)

theorem before_antisymm (hab : a.before b = true) (hba : b.before a = true) : a = b := by
  rw [before_iff] at hab hba
  have hschema : a.schemaPointer = b.schemaPointer := by
    rcases hab with hab | hab
    · rcases hba with hba | hba
      · exact absurd hba hab.asymm
      · exact hba.1.symm
    · exact hab.1
  rw [hschema] at hab hba
  have hinstance :=
    le_antisymm (hab.resolve_left (lt_irrefl _)).2 (hba.resolve_left (lt_irrefl _)).2
  cases a
  cases b
  exact congrArg₂ Violation.mk (pointer_injective hinstance) (pointer_injective hschema)

end Violation

/-! ## Sorted reports -/

namespace Report

variable {r r' : Report}

theorem sorted_perm (r : Report) : r.sorted.violations.Perm r.violations :=
  List.mergeSort_perm _ _

theorem pairwise_sorted (r : Report) :
    r.sorted.violations.Pairwise fun a b => a.before b = true := by
  have hsorted : ∀ vs : List Violation,
      (vs.mergeSort Violation.before).Pairwise fun a b => a.before b = true :=
    List.pairwise_mergeSort (fun _ _ _ => Violation.before_trans) Violation.before_total
  exact hsorted r.violations

/-- A sorted report depends on the violations only, not on the order in which they were found. -/
theorem sorted_eq_of_perm (h : r.violations.Perm r'.violations) : r.sorted = r'.sorted := by
  have hperm : r.sorted.violations.Perm r'.sorted.violations :=
    r.sorted_perm.trans (h.trans r'.sorted_perm.symm)
  have heq : r.sorted.violations = r'.sorted.violations :=
    hperm.eq_of_pairwise (fun _ _ _ _ => Violation.before_antisymm) r.pairwise_sorted
      r'.pairwise_sorted
  exact congrArg Report.mk heq

theorem sorted_sorted (r : Report) : r.sorted.sorted = r.sorted :=
  sorted_eq_of_perm r.sorted_perm

/-- Sorted reports are the same exactly if they have the same violations, as often. -/
theorem sorted_eq_iff_perm : r.sorted = r'.sorted ↔ r.violations.Perm r'.violations := by
  refine ⟨fun h => ?_, sorted_eq_of_perm⟩
  have hback : r.violations.Perm r.sorted.violations := r.sorted_perm.symm
  rw [h] at hback
  exact hback.trans r'.sorted_perm

end Report

end SchemaForms
