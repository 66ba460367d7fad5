import Mathlib.Data.List.Basic
import Mathlib.Data.List.TakeWhile
import Mathlib.Tactic.IntervalCases
import SchemaForms.Number.Layout
import SchemaForms.Number.Reading

/-!
# Decimal digits

What decimal digits of ASCII are worth, read from left to right: the digits of a number are worth
that number, zeros in front count for nothing, and a zero at the end is a factor of ten.
-/

namespace SchemaForms.Number

/-- Decimal digits of ASCII only. -/
def AllDigits (cs : List Char) : Prop := ∀ c ∈ cs, c.isDigit = true

variable {cs ds : List Char}

theorem allDigits_nil : AllDigits [] := List.forall_mem_nil _

theorem AllDigits.append (hcs : AllDigits cs) (hds : AllDigits ds) : AllDigits (cs ++ ds) := by
  intro c hc
  rcases List.mem_append.mp hc with hc | hc
  · exact hcs c hc
  · exact hds c hc

theorem AllDigits.left (h : AllDigits (cs ++ ds)) : AllDigits cs :=
  fun c hc => h c (List.mem_append_left _ hc)

theorem allDigits_zeros (k : Nat) : AllDigits (List.replicate k '0') := by
  intro c hc
  rw [List.eq_of_mem_replicate hc]
  rfl

theorem allDigits_toDigits (n : Nat) : AllDigits (Nat.toDigits 10 n) :=
  fun _ hc => Nat.isDigit_of_mem_toDigits (by decide) (by decide) hc

theorem isDigit_iff_toNat {c : Char} : c.isDigit = true ↔ 48 ≤ c.toNat ∧ c.toNat ≤ 57 := by
  rw [Char.isDigit, Bool.and_eq_true, decide_eq_true_eq, decide_eq_true_eq, ge_iff_le,
    UInt32.le_iff_toNat_le, UInt32.le_iff_toNat_le]
  rfl

theorem baseDigit?_of_isDigit {c : Char} (h : c.isDigit = true) :
    baseDigit? 10 c = some (c.toNat - '0'.toNat) := by
  have hrange : 48 ≤ c.toNat ∧ c.toNat ≤ 57 := isDigit_iff_toNat.mp h
  have hbetween : '0' ≤ c ∧ c ≤ '9' := hrange
  have hlt : c.toNat - 48 < 10 := by omega
  rw [baseDigit?, Text.hexValue?, if_pos hbetween]
  simp [hlt]

/-! ## What digits are worth -/

theorem digitsValue_eq (h : AllDigits cs) : digitsValue 10 cs = Nat.ofDigitChars 10 cs 0 := by
  rw [digitsValue, Nat.ofDigitChars_eq_foldl]
  generalize 0 = init
  induction cs generalizing init with
  | nil => rfl
  | cons c rest ih =>
    rw [List.foldl_cons, List.foldl_cons, baseDigit?_of_isDigit (h c List.mem_cons_self)]
    exact ih (fun d hd => h d (List.mem_cons_of_mem _ hd)) _

theorem digitsValue_toDigits (n : Nat) : digitsValue 10 (Nat.toDigits 10 n) = n := by
  rw [digitsValue_eq (allDigits_toDigits n), Nat.ofDigitChars_ten_toDigits]

theorem digitsValue_append_zeros (h : AllDigits cs) (k : Nat) :
    digitsValue 10 (cs ++ List.replicate k '0') = digitsValue 10 cs * 10 ^ k := by
  rw [digitsValue_eq (h.append (allDigits_zeros k)), digitsValue_eq h, Nat.ofDigitChars_append,
    Nat.ofDigitChars_replicate_zero, Nat.mul_comm]

theorem digitsValue_zeros_append (h : AllDigits cs) (k : Nat) :
    digitsValue 10 (List.replicate k '0' ++ cs) = digitsValue 10 cs := by
  rw [digitsValue_eq ((allDigits_zeros k).append h), digitsValue_eq h, Nat.ofDigitChars_append,
    Nat.ofDigitChars_replicate_zero, Nat.mul_zero]

/-! ## The digits of a number -/

/-- The digits of a positive number do not start with a zero. -/
theorem head?_toDigits_ne {n : Nat} (h : 0 < n) : (Nat.toDigits 10 n).head? ≠ some '0' := by
  induction n using Nat.strongRecOn with
  | ind n ih =>
    by_cases hn : n < 10
    · rw [Nat.toDigits_of_lt_base hn]
      interval_cases n <;> decide
    · rw [Nat.toDigits_of_base_le (by decide) (by omega),
        List.head?_append_of_ne_nil _ Nat.toDigits_ne_nil]
      exact ih (n / 10) (by omega) (by omega)

/-- A list is what is left without the zeros at its end, and those zeros. -/
theorem exists_zeros (cs : List Char) :
    ∃ k, cs = (cs.reverse.dropWhile (· = '0')).reverse ++ List.replicate k '0' := by
  have hzeros : ∀ c ∈ cs.reverse.takeWhile (· = '0'), c = '0' := by
    intro c hc
    simpa using List.mem_takeWhile_imp hc
  refine ⟨(cs.reverse.takeWhile (· = '0')).length, ?_⟩
  have hsplit : cs.reverse.takeWhile (· = '0') ++ cs.reverse.dropWhile (· = '0') = cs.reverse :=
    List.takeWhile_append_dropWhile
  rw [List.eq_replicate_of_mem hzeros] at hsplit
  have hback := congrArg List.reverse hsplit
  rw [List.reverse_append, List.reverse_replicate, List.reverse_reverse] at hback
  exact hback.symm

/-- What the significant digits of a positive number are: digits of which the first is no zero,
worth the number but for a power of ten. -/
theorem exists_significantDigits {n : Nat} (h : 0 < n) :
    ∃ k, AllDigits (Layout.significantDigits n) ∧ Layout.significantDigits n ≠ [] ∧
      (Layout.significantDigits n).head? ≠ some '0' ∧
      decimalLength n = (Layout.significantDigits n).length + k ∧
      n = digitsValue 10 (Layout.significantDigits n) * 10 ^ k := by
  obtain ⟨k, hk⟩ := exists_zeros (Nat.toDigits 10 n)
  rw [← Layout.significantDigits] at hk
  have hall : AllDigits (Layout.significantDigits n) := (hk ▸ allDigits_toDigits n).left
  have hhead := head?_toDigits_ne h
  have hne : Layout.significantDigits n ≠ [] := by
    intro hnil
    rw [hnil, List.nil_append] at hk
    cases k with
    | zero => exact Nat.toDigits_ne_nil hk
    | succ k =>
      rw [hk] at hhead
      exact hhead rfl
  refine ⟨k, hall, hne, ?_, ?_, ?_⟩
  · rw [hk, List.head?_append_of_ne_nil _ hne] at hhead
    exact hhead
  · rw [decimalLength, hk, List.length_append, List.length_replicate]
  · rw [← digitsValue_append_zeros hall, ← hk, digitsValue_toDigits]

end SchemaForms.Number
