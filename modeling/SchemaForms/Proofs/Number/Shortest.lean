import Mathlib.Tactic.Positivity
import Mathlib.Tactic.Ring
import SchemaForms.Number.Shortest

/-!
# Shortest decimals read back

Rounding depends on the quotient alone, so a decimal may be written with more or fewer zeros at its
end (`Double.ofDecimal_mul_pow`), and the exact expansion of a double reads back. So does every
decimal that the search tries, and with them the one that it returns (`Decimal.ofDecimal_shortest`).
-/

namespace SchemaForms.Number

/-! ## Rounding -/

theorem roundHalfEven_mul {c : Nat} (hc : 0 < c) (n d : Nat) :
    roundHalfEven (n * c) (d * c) = roundHalfEven n d := by
  have hleft : 2 * (n % d * c) < d * c ↔ 2 * (n % d) < d := by
    rw [← Nat.mul_assoc, Nat.mul_lt_mul_right hc]
  have hright : d * c < 2 * (n % d * c) ↔ d < 2 * (n % d) := by
    rw [← Nat.mul_assoc, Nat.mul_lt_mul_right hc]
  simp only [roundHalfEven, Nat.mul_div_mul_right _ _ hc, Nat.mul_mod_mul_right, hleft, hright]

theorem roundHalfEven_one (n : Nat) : roundHalfEven n 1 = n := by
  simp [roundHalfEven, Nat.mod_one]

/-- The rounded quotient is one of the two whole numbers around it. -/
theorem roundHalfEven_eq_or (n d : Nat) :
    roundHalfEven n d = n / d ∨ roundHalfEven n d = n / d + 1 := by
  have hparity := Nat.mod_two_eq_zero_or_one (n / d)
  simp only [roundHalfEven]
  split_ifs <;> omega

/-- A zero at the end makes a number one digit longer. -/
theorem decimalLength_mul_pow {s : Nat} (hs : 0 < s) (k : Nat) :
    decimalLength (s * 10 ^ k) = decimalLength s + k := by
  induction k with
  | zero => simp
  | succ k ih =>
    have hpos : 0 < s * 10 ^ k := by positivity
    rw [pow_succ, ← Nat.mul_assoc, decimalLength, Nat.toDigits_of_base_le (by decide) (by omega),
      Nat.mul_div_cancel _ (by decide), List.length_append, ← decimalLength, ih]
    rfl

theorem decimalLength_le_iff {s m : Nat} (hm : 0 < m) : decimalLength s ≤ m ↔ s < 10 ^ m :=
  Nat.length_toDigits_le_iff (by decide) hm

namespace Double

theorem nearestRank_mul {c : Nat} (hc : 0 < c) (n d : Nat) :
    nearestRank (n * c) (d * c) = nearestRank n d := by
  simp only [nearestRank]
  generalize Nat.pow 2 1074 = unit
  have hwhole : n * c * unit / (d * c) = n * unit / d := by
    rw [Nat.mul_right_comm, Nat.mul_div_mul_right _ _ hc]
  rw [hwhole, Nat.mul_right_comm n c, Nat.mul_right_comm d c, roundHalfEven_mul hc]

theorem log2_shifted {fraction : Nat} (h : fraction < 2 ^ 52) (b : Nat) :
    Nat.log2 ((2 ^ 52 + fraction) * 2 ^ b) = b + 52 := by
  have hpos : 0 < 2 ^ b := by positivity
  have hne : (2 ^ 52 + fraction) * 2 ^ b ≠ 0 := by positivity
  rw [Nat.log2_eq_iff hne]
  constructor
  · rw [pow_add, Nat.mul_comm]
    exact Nat.mul_le_mul_right _ (Nat.le_add_right _ _)
  · have hpow : 2 ^ (b + 52 + 1) = 2 ^ 53 * 2 ^ b := by rw [← pow_add]; congr 1; omega
    rw [hpow]
    exact Nat.mul_lt_mul_of_pos_right (by omega) hpos

/-- A magnitude with its leading bit in a place is rounded there to itself. -/
theorem roundHalfEven_shifted (n b : Nat) : roundHalfEven (n * 2 ^ b) (2 ^ b) = n := by
  have hscaled := roundHalfEven_mul (c := 2 ^ b) (by positivity) n 1
  rwa [Nat.one_mul, roundHalfEven_one] at hscaled

/-- A number of the format is the nearest to itself. -/
theorem nearestRank_units (rank : Nat) : nearestRank (units rank) (Nat.pow 2 1074) = rank := by
  have hunit : 0 < Nat.pow 2 1074 := by decide +kernel
  have hdivMod := Nat.div_add_mod rank (2 ^ 52)
  have hfraction : rank % 2 ^ 52 < 2 ^ 52 := Nat.mod_lt _ (by decide)
  simp only [nearestRank]
  generalize Nat.pow 2 1074 = unit at hunit
  rw [Nat.mul_div_cancel _ hunit, Nat.mul_comm unit, roundHalfEven_mul hunit]
  simp only [units, Nat.pow_eq]
  generalize rank / 2 ^ 52 = binade at hdivMod
  generalize rank % 2 ^ 52 = fraction at hdivMod hfraction
  cases binade with
  | zero =>
    -- The first binade is not rounded at all.
    have hlog : Nat.log2 fraction - 52 = 0 := by
      rcases Nat.eq_zero_or_pos fraction with rfl | hpos
      · rfl
      · have hlt := (Nat.log2_lt hpos.ne').mpr hfraction
        omega
    rw [if_pos rfl, hlog, pow_zero, roundHalfEven_one]
    omega
  | succ b =>
    -- In a later one the step is the power of two that the magnitude is a multiple of.
    rw [if_neg (Nat.succ_ne_zero b), Nat.add_sub_cancel, log2_shifted hfraction,
      Nat.add_sub_cancel, roundHalfEven_shifted]
    omega

/-- The value of a decimal by one quotient, whatever the sign of the exponent. -/
theorem ofDecimal_eq (negative : Bool) (significand : Nat) (exponent : Int) :
    ofDecimal negative significand exponent =
      let magnitude := decimalLength significand + exponent
      if significand = 0 ∨ magnitude < -330 then zero negative
      else if 310 < magnitude then infinite negative
      else ofRatio negative (significand * 10 ^ exponent.toNat) (10 ^ (-exponent).toNat) := by
  simp only [ofDecimal]
  split_ifs with hzero hlarge hsign
  · rfl
  · rfl
  · have hneg : (-exponent).toNat = 0 := by omega
    rw [hneg]
    rfl
  · have hneg : exponent.toNat = 0 := by omega
    rw [hneg, pow_zero, Nat.mul_one]
    rfl

/-- Both quotients are the same over the larger denominator. -/
theorem ofRatio_mul_pow (negative : Bool) (significand k : Nat) (exponent : Int) :
    ofRatio negative (significand * 10 ^ k * 10 ^ exponent.toNat) (10 ^ (-exponent).toNat) =
      ofRatio negative (significand * 10 ^ (exponent + k).toNat)
        (10 ^ (-(exponent + k)).toNat) := by
  obtain ⟨c, hc⟩ : ∃ c, c + (-(exponent + k)).toNat = (-exponent).toNat :=
    ⟨(-exponent).toNat - (-(exponent + k)).toNat, by omega⟩
  have hnumerator : k + exponent.toNat = (exponent + k).toNat + c := by omega
  have hscaled := nearestRank_mul (c := 10 ^ c) (by positivity)
    (significand * 10 ^ (exponent + k).toNat) (10 ^ (-(exponent + k)).toNat)
  rw [ofRatio, ofRatio, ← hscaled, Nat.mul_assoc, Nat.mul_assoc, ← pow_add, ← pow_add, ← pow_add,
    hnumerator, ← hc, Nat.add_comm c]

/-- Zeros at the end of the significand count as much as the exponent. -/
theorem ofDecimal_mul_pow (negative : Bool) (significand k : Nat) (exponent : Int) :
    ofDecimal negative (significand * 10 ^ k) exponent =
      ofDecimal negative significand (exponent + k) := by
  rcases Nat.eq_zero_or_pos significand with rfl | hpos
  · simp [ofDecimal]
  · have hne : significand * 10 ^ k ≠ 0 := by positivity
    have hmagnitude : (decimalLength (significand * 10 ^ k) : Int) + exponent =
        decimalLength significand + (exponent + k) := by
      rw [decimalLength_mul_pow hpos]
      push_cast
      ring
    simp only [ofDecimal_eq, hmagnitude, hne, hpos.ne', ofRatio_mul_pow]

/-- Of a decimal that is read only the sign depends on its sign. -/
theorem exists_rank_ofDecimal (significand : Nat) (exponent : Int) :
    ∃ rank, ∀ negative, ofDecimal negative significand exponent = ofRank negative rank := by
  simp only [ofDecimal_eq]
  split_ifs
  · exact ⟨0, fun negative => by rw [ofRank, dif_pos (by decide)]; rfl⟩
  · exact ⟨rankCount, fun negative => by rw [ofRank, dif_neg (by simp)]⟩
  · refine ⟨nearestRank (significand * 10 ^ exponent.toNat) (10 ^ (-exponent).toNat), ?_⟩
    intro negative
    rw [ofRatio]

theorem ofRank_injective {negative : Bool} {rank rank' : Nat} (hrank : rank < rankCount)
    (h : ofRank negative rank' = ofRank negative rank) : rank' = rank := by
  rw [ofRank, ofRank, dif_pos hrank] at h
  split_ifs at h
  simpa using h

theorem units_pos {rank : Nat} (h : 0 < rank) : 0 < units rank := by
  simp only [units, Nat.pow_eq]
  split_ifs with hbinade
  · omega
  · positivity

theorem units_le {rank : Nat} (h : rank < rankCount) : units rank ≤ 2 ^ 53 * Nat.pow 2 2045 := by
  have hfraction : rank % 2 ^ 52 < 2 ^ 52 := Nat.mod_lt _ (by decide)
  have hbinade : rank / 2 ^ 52 < 2047 := Nat.div_lt_of_lt_mul (by rw [Nat.mul_comm]; exact h)
  have hpow : ∀ j k, j ≤ k → 2 ^ j ≤ Nat.pow 2 k := fun _ _ => Nat.pow_le_pow_right (by decide)
  have hmax : 2 ^ (rank / 2 ^ 52 - 1) ≤ Nat.pow 2 2045 := hpow _ 2045 (by omega)
  have hone : 1 ≤ 2 ^ (rank / 2 ^ 52 - 1) := Nat.one_le_two_pow
  generalize Nat.pow 2 2045 = greatest at hmax
  simp only [units, Nat.pow_eq]
  split_ifs
  · calc rank % 2 ^ 52 ≤ 2 ^ 53 * 1 := by omega
      _ ≤ 2 ^ 53 * greatest := Nat.mul_le_mul_left _ (hone.trans hmax)
  · exact Nat.mul_le_mul (by omega) hmax

/-- The exact expansion of a double is in the reach of the format. -/
theorem decimalLength_exact {rank : Nat} (hpos : 0 < rank) (hrank : rank < rankCount) :
    744 < decimalLength (units rank * Nat.pow 5 1074) ∧
      decimalLength (units rank * Nat.pow 5 1074) ≤ 1384 := by
  constructor
  · rw [← Nat.not_le, decimalLength_le_iff (by decide), Nat.not_lt]
    calc 10 ^ 744 ≤ Nat.pow 5 1074 := by decide +kernel
      _ ≤ units rank * Nat.pow 5 1074 := Nat.le_mul_of_pos_left _ (units_pos hpos)
  · rw [decimalLength_le_iff (by decide)]
    calc units rank * Nat.pow 5 1074 ≤ 2 ^ 53 * Nat.pow 2 2045 * Nat.pow 5 1074 :=
          Nat.mul_le_mul_right _ (units_le hrank)
      _ < 10 ^ 1384 := by decide +kernel

end Double

namespace Decimal

open Double (units ofRank ofDecimal nearestRank)

variable {rank : Nat}

/-- The exact expansion of a double reads back. -/
theorem readsBack_exact (hpos : 0 < rank) (hrank : rank < rankCount) :
    readsBack rank ⟨units rank * Nat.pow 5 1074, -1074⟩ = true := by
  obtain ⟨hmin, hmax⟩ := Double.decimalLength_exact hpos hrank
  have hfive : 0 < Nat.pow 5 1074 := by decide +kernel
  have hne : units rank * Nat.pow 5 1074 ≠ 0 :=
    (Nat.mul_pos (Double.units_pos hpos) hfive).ne'
  have hsplit : 10 ^ 1074 = Nat.pow 2 1074 * Nat.pow 5 1074 := by decide +kernel
  have hrounded := Double.nearestRank_mul hfive (units rank) (Nat.pow 2 1074)
  rw [← hsplit, Double.nearestRank_units] at hrounded
  generalize units rank * Nat.pow 5 1074 = significand at hmin hmax hne hrounded
  rw [readsBack, decide_eq_true_eq, Double.ofDecimal_eq]
  dsimp only
  rw [if_neg (by omega), if_neg (by omega), Double.ofRatio, show (-1074 : Int).toNat = 0 from rfl,
    show (-(-1074 : Int)).toNat = 1074 from rfl, pow_zero, Nat.mul_one, hrounded]

/-- A neighbour that is taken passes the test: the nearer one of two is one of them. -/
theorem passes_of_neighbour? {passes : Decimal → Bool} {n d : Nat} {exponent : Int}
    {found : Decimal} (h : neighbour? passes n d exponent = some found) : passes found = true := by
  simp only [neighbour?] at h
  split at h
  · next hbelow habove =>
    cases h
    rcases roundHalfEven_eq_or n d with heq | heq
    · rw [heq]
      exact hbelow
    · rw [heq]
      exact habove
  · next hbelow _ =>
    cases h
    exact hbelow
  · next _ habove =>
    cases h
    exact habove
  · cases h

/-- A decimal that the search finds on a grid reads back. -/
theorem readsBack_of_withDigits? {digits : Nat} {d : Decimal}
    (h : withDigits? rank digits = some d) : readsBack rank d = true := by
  rw [withDigits?] at h
  exact passes_of_neighbour? h

theorem readsBack_shortest (hpos : 0 < rank) (hrank : rank < rankCount) :
    readsBack rank (shortest rank) = true := by
  simp only [shortest]
  cases h : ((List.range 17).map (· + 1)).findSome? (withDigits? rank) with
  | none => exact readsBack_exact hpos hrank
  | some d =>
    obtain ⟨digits, -, hdigits⟩ := List.exists_of_findSome?_eq_some h
    exact readsBack_of_withDigits? hdigits

/-- **The shortest decimal of a double reads back**, with either sign. -/
theorem ofDecimal_shortest (negative : Bool) (rank : Fin rankCount) (hpos : 0 < rank.val) :
    ofDecimal negative (shortest rank).significand (shortest rank).exponent =
      .finite negative rank := by
  obtain ⟨rank', hrank'⟩ :=
    Double.exists_rank_ofDecimal (shortest rank).significand (shortest rank).exponent
  have hback := readsBack_shortest hpos rank.isLt
  rw [readsBack, decide_eq_true_eq, hrank'] at hback
  rw [hrank', Double.ofRank_injective rank.isLt hback, ofRank, dif_pos rank.isLt]

theorem significand_shortest_pos (rank : Fin rankCount) (hpos : 0 < rank.val) :
    0 < (shortest rank).significand := by
  by_contra hzero
  have hback := ofDecimal_shortest false rank hpos
  rw [Nat.eq_zero_of_not_pos hzero, ofDecimal, if_pos (.inl rfl), Double.zero] at hback
  cases hback
  exact absurd hpos (by decide)

end Decimal

end SchemaForms.Number
