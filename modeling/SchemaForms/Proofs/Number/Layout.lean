import SchemaForms.Proofs.Number.Digits
import SchemaForms.Proofs.Number.Shortest

/-!
# Written doubles as decimals

A `DecimalText` is a decimal as a text writes it: the digits before the point, the places behind it,
and an exponent. Whatever the layout, a magnitude is written as the text of a decimal that has the
value of the double (`Layout.exists_decimalText`).
-/

namespace SchemaForms.Number

open Double (ofDecimal)

/-- Digits before a point, places behind it, and an exponent part. -/
structure DecimalText where
  whole : List Char
  places : List Char
  exponent : Option Int

/-- A lone zero, or digits of which the first one is no zero. -/
def IsWhole (cs : List Char) : Prop :=
  cs = ['0'] ∨ cs ≠ [] ∧ cs.head? ≠ some '0' ∧ AllDigits cs

/-- A point and the places behind it, if there are any. -/
def fractionPart : List Char → List Char
  | [] => []
  | places => '.' :: places

/-- The exponent part of an exponent, if there is one. -/
def exponentText : Option Int → List Char
  | none => []
  | some exponent => Layout.exponentPart exponent

namespace DecimalText

/-- The characters of a decimal. -/
def chars (t : DecimalText) : List Char :=
  t.whole ++ (fractionPart t.places ++ exponentText t.exponent)

/-- The double that a decimal writes. -/
def value (t : DecimalText) (negative : Bool) : Double :=
  ofDecimal negative (digitsValue 10 (t.whole ++ t.places))
    (t.exponent.getD 0 - t.places.length)

/-- The parts are digits, and some part is there that tells the decimal from an integer. -/
structure WellFormed (t : DecimalText) : Prop where
  whole : IsWhole t.whole
  places : AllDigits t.places
  marked : t.places ≠ [] ∨ t.exponent ≠ none

end DecimalText

theorem IsWhole.allDigits {cs : List Char} (h : IsWhole cs) : AllDigits cs := by
  rcases h with rfl | ⟨-, -, hall⟩
  · exact allDigits_zeros 1
  · exact hall

theorem IsWhole.ne_nil {cs : List Char} (h : IsWhole cs) : cs ≠ [] := by
  rcases h with rfl | ⟨hne, -⟩
  · exact List.cons_ne_nil _ _
  · exact hne

/-- A whole part starts with a digit. -/
theorem IsWhole.exists_head? {cs : List Char} (h : IsWhole cs) (rest : List Char) :
    ∃ d, (cs ++ rest).head? = some d ∧ d.isDigit = true := by
  obtain ⟨d, ds, rfl⟩ := List.exists_cons_of_ne_nil h.ne_nil
  exact ⟨d, rfl, h.allDigits d List.mem_cons_self⟩

theorem isWhole_toDigits (n : Nat) : IsWhole (Nat.toDigits 10 n) := by
  rcases Nat.eq_zero_or_pos n with rfl | hpos
  · exact .inl rfl
  · exact .inr ⟨Nat.toDigits_ne_nil, head?_toDigits_ne hpos, allDigits_toDigits n⟩

/-! ## The layouts -/

/-- Digits that do not start with a zero, with the exponent of the first one: what a layout is given
to write, and the double that it stands for. -/
structure Scaled (digits : List Char) (exponent : Int) (rank : Fin rankCount) : Prop where
  all : AllDigits digits
  ne_nil : digits ≠ []
  head : digits.head? ≠ some '0'
  value : ∀ negative, ofDecimal negative (digitsValue 10 digits) (exponent + 1 - digits.length) =
    .finite negative rank

variable {digits : List Char} {exponent : Int} {rank : Fin rankCount}

theorem Scaled.isWhole_take (h : Scaled digits exponent rank) {n : Nat} (hn : 0 < n) :
    IsWhole (digits.take n) := by
  obtain ⟨d, rest, hdigits⟩ := List.exists_cons_of_ne_nil h.ne_nil
  obtain ⟨m, rfl⟩ := Nat.exists_eq_add_of_lt hn
  have hhead := h.head
  rw [hdigits] at hhead ⊢
  refine .inr ⟨by simp, by simpa using hhead, fun c hc => h.all c ?_⟩
  rw [hdigits]
  exact List.mem_of_mem_take hc

/-- The decimal text `t` writes the magnitude of this rank. -/
def WritesRank (t : DecimalText) (rank : Fin rankCount) : Prop :=
  t.WellFormed ∧ ∀ negative, t.value negative = .finite negative rank

/-- A number below one: zeros stand between the point and the digits. -/
theorem Scaled.exists_below {k : Nat} (h : Scaled digits exponent rank)
    (hk : exponent = -(k : Int) - 1) :
    ∃ t, '0' :: '.' :: (List.replicate k '0' ++ digits) = DecimalText.chars t ∧
      WritesRank t rank := by
  have hne : List.replicate k '0' ++ digits ≠ [] := by simp [h.ne_nil]
  have hall : AllDigits (List.replicate k '0' ++ digits) := (allDigits_zeros k).append h.all
  refine ⟨⟨['0'], List.replicate k '0' ++ digits, none⟩, ?_, ⟨.inl rfl, hall, .inl hne⟩, ?_⟩
  · obtain ⟨c, rest, hcons⟩ := List.exists_cons_of_ne_nil hne
    simp [DecimalText.chars, hcons, fractionPart, exponentText]
  · intro negative
    have hexponent : (0 : Int) - (List.replicate k '0' ++ digits).length =
        exponent + 1 - digits.length := by
      rw [List.length_append, List.length_replicate, hk]
      push_cast
      omega
    have hdigits : digitsValue 10 (['0'] ++ (List.replicate k '0' ++ digits)) =
        digitsValue 10 digits := by
      rw [← List.append_assoc]
      exact digitsValue_zeros_append h.all (k + 1)
    rw [DecimalText.value]
    dsimp only [Option.getD_none]
    rw [hexponent, hdigits, h.value]

/-- All digits stand before the point, with zeros up to it and one behind it. -/
theorem Scaled.exists_padded {k : Nat} (h : Scaled digits exponent rank)
    (hk : exponent + 1 = digits.length + k) :
    ∃ t, digits ++ List.replicate k '0' ++ ['.', '0'] = DecimalText.chars t ∧
      WritesRank t rank := by
  have hwhole : IsWhole (digits ++ List.replicate k '0') := by
    refine .inr ⟨by simp [h.ne_nil], ?_, h.all.append (allDigits_zeros k)⟩
    rw [List.head?_append_of_ne_nil _ h.ne_nil]
    exact h.head
  refine ⟨⟨digits ++ List.replicate k '0', ['0'], none⟩, ?_,
    ⟨hwhole, allDigits_zeros 1, .inl (List.cons_ne_nil _ _)⟩, ?_⟩
  · simp [DecimalText.chars, fractionPart, exponentText]
  · intro negative
    have hdigits : digitsValue 10 (digits ++ List.replicate k '0' ++ ['0']) =
        digitsValue 10 digits * 10 ^ (k + 1) := by
      rw [List.append_assoc, ← List.replicate_succ', digitsValue_append_zeros h.all]
    have hexponent : (0 : Int) - (1 : Nat) + (k + 1 : Nat) = exponent + 1 - digits.length := by
      push_cast
      omega
    show ofDecimal negative (digitsValue 10 (digits ++ List.replicate k '0' ++ ['0']))
      (0 - (1 : Nat)) = _
    rw [hdigits, Double.ofDecimal_mul_pow, hexponent, h.value]

/-- The point stands among the digits. -/
theorem Scaled.exists_among {n : Nat} (h : Scaled digits exponent rank)
    (hn : exponent + 1 = n) (hpos : 0 < n) (hlt : n < digits.length) :
    ∃ t, digits.take n ++ '.' :: digits.drop n = DecimalText.chars t ∧ WritesRank t rank := by
  have hplaces : digits.drop n ≠ [] := List.drop_eq_nil_iff.not.mpr (Nat.not_le.mpr hlt)
  have hall : AllDigits (digits.drop n) := fun c hc => h.all c (List.mem_of_mem_drop hc)
  refine ⟨⟨digits.take n, digits.drop n, none⟩, ?_,
    ⟨h.isWhole_take hpos, hall, .inl hplaces⟩, ?_⟩
  · obtain ⟨c, rest, hcons⟩ := List.exists_cons_of_ne_nil hplaces
    simp [DecimalText.chars, hcons, fractionPart, exponentText]
  · intro negative
    have hexponent : (0 : Int) - (digits.drop n).length = exponent + 1 - digits.length := by
      rw [List.length_drop]
      omega
    rw [DecimalText.value]
    dsimp only [Option.getD_none]
    rw [List.take_append_drop, hexponent, h.value]

theorem Scaled.exists_plain (h : Scaled digits exponent rank) :
    ∃ t, Layout.plain digits exponent = DecimalText.chars t ∧ WritesRank t rank := by
  rw [Layout.plain]
  split_ifs with hsign
  · exact h.exists_below (by omega)
  · have hwhole : exponent + 1 = (exponent.toNat + 1 : Nat) := by omega
    generalize exponent.toNat + 1 = n at hwhole
    dsimp only
    by_cases hlength : digits.length ≤ n
    · obtain ⟨k, rfl⟩ := Nat.exists_eq_add_of_le hlength
      have hpadded : (digits ++ List.replicate k '0').length = digits.length + k := by simp
      rw [Nat.add_sub_cancel_left, List.take_of_length_le hpadded.le,
        List.drop_of_length_le hpadded.le]
      exact h.exists_padded (by omega)
    · have hpadding : n - digits.length = 0 := by omega
      have hplaces : (digits.drop n).isEmpty = false := by
        rw [List.isEmpty_eq_false_iff, Ne, List.drop_eq_nil_iff]
        exact hlength
      rw [hpadding, List.replicate_zero, List.append_nil, hplaces]
      exact h.exists_among hwhole (by omega) (Nat.not_le.mp hlength)

theorem Scaled.exists_scientific (h : Scaled digits exponent rank) :
    ∃ t, Layout.scientific digits exponent = DecimalText.chars t ∧ WritesRank t rank := by
  obtain ⟨d, rest, rfl⟩ := List.exists_cons_of_ne_nil h.ne_nil
  have hwhole : IsWhole [d] := h.isWhole_take (n := 1) (by decide)
  refine ⟨⟨[d], rest, some exponent⟩, ?_, ⟨hwhole, ?_, .inr (by simp)⟩, ?_⟩
  · cases rest with
    | nil => rfl
    | cons c rest => rfl
  · exact fun c hc => h.all c (List.mem_cons_of_mem _ hc)
  · intro negative
    have hexponent : exponent - rest.length = exponent + 1 - (d :: rest).length := by
      rw [List.length_cons]
      push_cast
      omega
    rw [DecimalText.value]
    dsimp only [Option.getD_some]
    rw [List.singleton_append, hexponent, h.value]

/-- The significant digits of the shortest decimal, with the exponent of the first one. -/
theorem scaled_shortest (hpos : 0 < rank.val) :
    let decimal := Decimal.shortest rank
    Scaled (Layout.significantDigits decimal.significand)
      (decimalLength decimal.significand - 1 + decimal.exponent) rank := by
  obtain ⟨k, hall, hne, hhead, hlength, hvalue⟩ :=
    exists_significantDigits (Decimal.significand_shortest_pos rank hpos)
  refine ⟨hall, hne, hhead, fun negative => ?_⟩
  have hshortest := Decimal.ofDecimal_shortest negative rank hpos
  have hexponent : (Decimal.shortest rank).exponent + k =
      decimalLength (Decimal.shortest rank).significand - 1 + (Decimal.shortest rank).exponent + 1 -
        (Layout.significantDigits (Decimal.shortest rank).significand).length := by
    rw [hlength]
    push_cast
    omega
  rw [← hexponent, ← Double.ofDecimal_mul_pow, ← hvalue, hshortest]

/-- **A layout writes a double as a decimal of its value.** -/
theorem Layout.exists_decimalText (layout : Layout) (rank : Fin rankCount) :
    ∃ t, layout.magnitude rank = DecimalText.chars t ∧ WritesRank t rank := by
  by_cases hzero : rank.val = 0
  · refine ⟨⟨['0'], ['0'], none⟩, by rw [magnitude, if_pos hzero]; rfl,
      ⟨.inl rfl, allDigits_zeros 1, .inl (by simp)⟩, ?_⟩
    intro negative
    have hrank : rank = ⟨0, by decide⟩ := Fin.ext hzero
    rw [hrank]
    rfl
  · have hscaled := scaled_shortest (Nat.pos_of_ne_zero hzero)
    rw [magnitude, if_neg hzero]
    dsimp only at hscaled ⊢
    split
    · exact hscaled.exists_plain
    · exact hscaled.exists_scientific

end SchemaForms.Number
