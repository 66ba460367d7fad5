import Mathlib.Algebra.Order.Ring.Rat
import Mathlib.Tactic.FieldSimp
import Mathlib.Tactic.NormNum
import SchemaForms.Proofs.Validation.Types

/-!
# The exact value of a number

`Number.value?` is the value of a number as a rational: that of a double is read off the three
fields of the format binary64, and an infinity and not-a-number have none. A sized integer type
admits the numbers whose exact value is whole and fits in its bits
(`ScalarType.admits_number_iff`), so two numbers of one exact value are of the same types
(`ScalarType.admits_congr`).
-/

namespace SchemaForms

open SchemaForms.Number (Double)

namespace Number

/-- The magnitude of the number of this rank, as the format defines it: the upper bits of the rank
are a biased exponent, the lower 52 bits a fraction, with an implicit one before the point unless
the exponent is zero. -/
def Double.magnitude (rank : Nat) : ℚ :=
  let exponent : Nat := rank / 2 ^ 52
  let fraction : ℚ := (rank % 2 ^ 52 : Nat) / 2 ^ 52
  if exponent = 0 then fraction * 2 ^ (-1022 : Int)
  else (1 + fraction) * 2 ^ ((exponent : Int) - 1023)

/-- The value of a double that has one. -/
def Double.value? : Double → Option ℚ
  | finite negative rank =>
    some (if negative then -magnitude rank else magnitude rank)
  | _ => none

/-- The value of a number that has one. -/
def value? : Number → Option ℚ
  | int value => some value
  | double value => value.value?

/-- The units of a rank count its magnitude. -/
theorem Double.magnitude_eq (rank : Nat) : magnitude rank = units rank / 2 ^ 1074 := by
  have hunit : (2 : ℚ) ^ 1074 = 2 ^ 52 * 2 ^ 1022 := pow_add 2 52 1022
  simp only [magnitude, units, Nat.pow_eq, hunit]
  split_ifs with hbinade
  · rw [zpow_neg, show (2 : ℚ) ^ (1022 : Int) = 2 ^ 1022 from zpow_natCast 2 1022]
    field_simp
  · obtain ⟨binade, hbinade⟩ : ∃ binade, rank / 2 ^ 52 = binade + 1 :=
      ⟨rank / 2 ^ 52 - 1, by omega⟩
    have hpow : (2 : ℚ) ^ (((binade + 1 : Nat) : Int) - 1023) = 2 ^ binade / 2 ^ 1022 := by
      rw [show ((binade + 1 : Nat) : Int) - 1023 = (binade : Int) - (1022 : Nat) by omega,
        zpow_sub₀ two_ne_zero, zpow_natCast, zpow_natCast]
    rw [hbinade, hpow, Nat.add_sub_cancel]
    generalize rank % 2 ^ 52 = fraction
    push_cast
    field_simp
    norm_num

/-- A whole number is the exact value of a number exactly where the integers say so. -/
theorem isExactly_iff (n : Number) (k : Int) : n.IsExactly k ↔ n.value? = some (k : ℚ) := by
  match n with
  | .int m => simp [IsExactly, value?]
  | .double .nan => simp [IsExactly, value?, Double.value?]
  | .double (.infinite negative) => simp [IsExactly, value?, Double.value?]
  | .double (.finite negative rank) =>
    have hunit : (2 : ℚ) ^ 1074 ≠ 0 := pow_ne_zero _ two_ne_zero
    rw [IsExactly, value?, Double.value?, Option.some.injEq, Double.magnitude_eq, ← neg_div,
      ← ite_div, div_eq_iff hunit, ← Int.cast_inj (α := ℚ), Int.cast_mul, Int.cast_mul,
      Int.cast_natCast, Int.cast_pow, Int.cast_ofNat, Int.cast_ite, Int.cast_neg, Int.cast_one,
      ite_mul, neg_one_mul, one_mul]

theorem toInt?_eq_some_iff_value? (n : Number) (k : Int) :
    n.toInt? = some k ↔ n.value? = some (k : ℚ) :=
  (n.toInt?_eq_some_iff k).trans (n.isExactly_iff k)

/-- Numbers of one exact value have the same whole value, if any. -/
theorem toInt?_congr {m n : Number} (h : m.value? = n.value?) : m.toInt? = n.toInt? := by
  refine Option.ext fun k => ?_
  rw [toInt?_eq_some_iff_value?, toInt?_eq_some_iff_value?, h]

end Number

namespace ScalarType

/-- The sized integer types: whether they are signed, and how many bits they have. -/
def width? : ScalarType → Option (Bool × Nat)
  | int8 => some (true, 8)
  | uint8 => some (false, 8)
  | int16 => some (true, 16)
  | uint16 => some (false, 16)
  | int32 => some (true, 32)
  | uint32 => some (false, 32)
  | int64 => some (true, 64)
  | uint64 => some (false, 64)
  | _ => none

/-- A whole number fits in so many bits, one of which is for the sign if there is one. -/
def Fits (signed : Bool) (bits : Nat) (k : Int) : Prop :=
  if signed then -2 ^ (bits - 1) ≤ k ∧ k ≤ 2 ^ (bits - 1) - 1 else 0 ≤ k ∧ k ≤ 2 ^ bits - 1

variable {t : ScalarType} {signed : Bool} {bits : Nat}

theorem holds_iff_fits (h : t.width? = some (signed, bits)) (v : Value) :
    t.Holds v ↔ ∃ n k, v = .number n ∧ n.IsExactly k ∧ Fits signed bits k := by
  cases t <;> cases h <;> rfl

/-- The sized integer type admits a number exactly when its value is whole and fits. -/
theorem admits_number_iff (h : t.width? = some (signed, bits)) (n : Number) :
    t.admits (.number n) = true ↔ ∃ k : Int, n.value? = some (k : ℚ) ∧ Fits signed bits k := by
  rw [admits_iff_holds, holds_iff_fits h]
  simp only [← Number.isExactly_iff]
  constructor
  · rintro ⟨_, k, heq, hk⟩
    cases heq
    exact ⟨k, hk⟩
  · rintro ⟨k, hk⟩
    exact ⟨n, k, rfl, hk⟩

/-- No type tells numbers of one whole value apart, or numbers without one. -/
theorem admits_congr {m n : Number} (h : m.toInt? = n.toInt?) (t : ScalarType) :
    t.admits (.number m) = t.admits (.number n) := by
  cases t <;> simp only [admits, range?, Number.inRange, h]

/-- No numeric type admits a truth value. -/
theorem not_holds_bool (h : t.width?.isSome ∨ t.isFloating) (b : Bool) : ¬ t.Holds (.bool b) := by
  rw [← admits_iff_holds]
  cases t <;> simp_all [width?, isFloating, admits, range?]

end ScalarType

end SchemaForms
