import Mathlib.Tactic.Linarith
import Mathlib.Tactic.Ring
import SchemaForms.Validation.Admits

/-!
# Values of a scalar type

`Number.IsExactly` is the exact value of a number as an equation between integers, and
`ScalarType.Holds` lists for each of the fourteen types which values are of it. `ScalarType.admits`
decides the latter (`admits_iff_holds`).
-/

namespace SchemaForms

open SchemaForms.Number (Double)

/-- The exact value of the number is this whole number: of a double, in units of 2^-1074. -/
def Number.IsExactly : Number → Int → Prop
  | .int m, k => m = k
  | .double (.finite negative rank), k =>
    (if negative then -1 else 1) * (Double.units rank : Int) = k * 2 ^ 1074
  | .double _, _ => False

/-- The whole quotient by a power of two, with a sign, is what gives back the dividend. -/
theorem signed_quotient_iff (magnitude e : Nat) (negative : Bool) (k : Int) :
    (if magnitude % Nat.pow 2 e = 0 then
      some (if negative then -((magnitude : Int) / Nat.pow 2 e)
        else (magnitude : Int) / Nat.pow 2 e)
    else none) = some k ↔ (if negative then -1 else 1) * (magnitude : Int) = k * 2 ^ e := by
  have hunit : 0 < Nat.pow 2 e := Nat.two_pow_pos e
  have hcast : ((Nat.pow 2 e : Nat) : Int) = 2 ^ e := Nat.cast_pow 2 e
  rw [← hcast]
  generalize Nat.pow 2 e = unit at hunit ⊢
  have hne : (unit : Int) ≠ 0 := by omega
  split_ifs with hwhole hsign hsign
  · obtain ⟨q, rfl⟩ := Nat.dvd_of_mod_eq_zero hwhole
    rw [Nat.cast_mul, Int.mul_ediv_cancel_left _ hne, Option.some.injEq,
      show (-1 : Int) * (unit * q) = -q * unit by ring]
    exact (mul_left_inj' hne).symm
  · obtain ⟨q, rfl⟩ := Nat.dvd_of_mod_eq_zero hwhole
    rw [Nat.cast_mul, Int.mul_ediv_cancel_left _ hne, Option.some.injEq,
      show (1 : Int) * (unit * q) = q * unit by ring]
    exact (mul_left_inj' hne).symm
  all_goals
    simp only [false_iff]
    intro h
    refine hwhole (Nat.mod_eq_zero_of_dvd (Int.natCast_dvd_natCast.mp ?_))
  · exact ⟨-k, by linarith⟩
  · exact ⟨k, by linarith⟩

theorem Number.toInt?_eq_some_iff (n : Number) (k : Int) : n.toInt? = some k ↔ n.IsExactly k := by
  match n with
  | .int m => simp [toInt?, IsExactly]
  | .double .nan => simp [toInt?, Double.toInt?, IsExactly]
  | .double (.infinite negative) => simp [toInt?, Double.toInt?, IsExactly]
  | .double (.finite negative rank) =>
    simp only [toInt?, Double.toInt?, IsExactly, signed_quotient_iff]

namespace ScalarType

theorem ofName?_eq_some_iff (typeName : String) (t : ScalarType) :
    ofName? typeName = some t ↔ t.name = typeName := by
  constructor
  · intro h
    simpa using List.find?_some h
  · rintro rfl
    cases t <;> rfl

theorem name_injective {t t' : ScalarType} (h : t.name = t'.name) : t = t' := by
  have ht := (ofName?_eq_some_iff t'.name t).mpr h
  rw [(ofName?_eq_some_iff t'.name t').mpr rfl] at ht
  exact (Option.some.inj ht).symm

theorem name_ne_empty (t : ScalarType) : t.name ≠ "" := by
  cases t <;> decide

/-- The value is a number whose exact value is whole and within the bounds. -/
def IsWhole (low high : Int) (v : Value) : Prop :=
  ∃ n k, v = .number n ∧ n.IsExactly k ∧ low ≤ k ∧ k ≤ high

/-- The value is of the type. -/
def Holds : ScalarType → Value → Prop
  | boolean, v => ∃ b, v = .bool b
  | number, v => ∃ n, v = .number n
  | float32, v => ∃ n, v = .number n
  | float64, v => ∃ n, v = .number n
  | int8, v => IsWhole (-2 ^ 7) (2 ^ 7 - 1) v
  | uint8, v => IsWhole 0 (2 ^ 8 - 1) v
  | int16, v => IsWhole (-2 ^ 15) (2 ^ 15 - 1) v
  | uint16, v => IsWhole 0 (2 ^ 16 - 1) v
  | int32, v => IsWhole (-2 ^ 31) (2 ^ 31 - 1) v
  | uint32, v => IsWhole 0 (2 ^ 32 - 1) v
  | int64, v => IsWhole (-2 ^ 63) (2 ^ 63 - 1) v
  | uint64, v => IsWhole 0 (2 ^ 64 - 1) v
  | string, v => ∃ text, v = .string text
  | timestamp, v => ∃ text, v = .string text ∧ isTimestamp text

theorem inRange_iff (n : Number) (low high : Int) :
    n.inRange (low, high) = true ↔ ∃ k, n.IsExactly k ∧ low ≤ k ∧ k ≤ high := by
  simp only [Number.inRange, ← Number.toInt?_eq_some_iff]
  cases n.toInt? with
  | none => simp
  | some k => simp

theorem admits_iff_holds (t : ScalarType) (v : Value) : t.admits v = true ↔ t.Holds v := by
  cases t <;> cases v <;>
    simp [admits, range?, signedRange, unsignedRange, isFloating, Holds, IsWhole, inRange_iff]

end ScalarType

end SchemaForms
