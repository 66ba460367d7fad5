import Mathlib.Tactic.SplitIfs
import SchemaForms.Text.Utf8

/-!
# UTF-8 decoded

The octets of a text are decoded as that text (`Text.utf8Decode_octets`). Each character is taken
off the front by itself: `utf8Front` is shown of sequences of two, three and four octets by the
numbers that stand in them.
-/

namespace SchemaForms.Text

/-- The octets of a text in UTF-8. -/
def utf8Octets (text : String) : List UInt8 := text.toUTF8.data.toList

variable {first second third fourth : UInt8} {a b c d : Nat}

/-! ## One character -/

theorem continuation?_eq (h : second.toNat = b + 0x80) (hb : b < 64) :
    continuation? second = some b := by
  have hrange : 0x80 ≤ second ∧ second < 0xC0 := by
    rw [UInt8.le_iff_toNat_le, UInt8.lt_iff_toNat_lt, h]
    exact ⟨Nat.le_add_left _ _, by simpa using Nat.add_lt_add_right hb 0x80⟩
  rw [continuation?, if_pos hrange, h, Nat.add_sub_cancel]

/-- The second octet continues a sequence that is neither overlong, nor half a surrogate pair, nor
beyond the last character. -/
theorem secondOctet?_eq (h : second.toNat = b + 0x80) (hb : b < 64)
    (hE0 : first.toNat = 0xE0 → 0x20 ≤ b) (hED : first.toNat = 0xED → b < 0x20)
    (hF0 : first.toNat = 0xF0 → 0x10 ≤ b) (hF4 : first.toNat = 0xF4 → b < 0x10) :
    secondOctet? first second = some b := by
  have hfine : ¬ ((first = 0xE0 ∧ second < 0xA0) ∨ (first = 0xED ∧ 0xA0 ≤ second) ∨
      (first = 0xF0 ∧ second < 0x90) ∨ (first = 0xF4 ∧ 0x90 ≤ second)) := by
    simp only [← UInt8.toNat_inj, UInt8.lt_iff_toNat_lt, UInt8.le_iff_toNat_le, h,
      UInt8.reduceToNat]
    omega
  rw [secondOctet?, if_neg hfine, continuation?_eq h hb]

/-- The first octet of a longer sequence. -/
theorem not_short (first : UInt8) (h : 0xC2 ≤ first.toNat ∧ first.toNat < 0xF5) :
    ¬ first < 0x80 ∧ ¬ first < 0xC2 ∧ ¬ 0xF5 ≤ first := by
  simp only [UInt8.lt_iff_toNat_lt, UInt8.le_iff_toNat_le, UInt8.reduceToNat]
  omega

theorem utf8Front_one (h : first.toNat < 0x80) (rest : List UInt8) :
    utf8Front first rest = .ok (Char.ofNat first.toNat, 1) := by
  have hone : first < 0x80 := UInt8.lt_iff_toNat_lt.mpr h
  rw [utf8Front.eq_def, if_pos hone]

theorem utf8Front_two (hfirst : first.toNat = a + 0xC0) (ha : 2 ≤ a ∧ a < 32)
    (hsecond : second.toNat = b + 0x80) (hb : b < 64) (rest : List UInt8) :
    utf8Front first (second :: rest) = .ok (Char.ofNat (a * 64 + b), 2) := by
  obtain ⟨hone, hlow, hhigh⟩ := not_short first (by omega)
  have htwo : first < 0xE0 := by simp only [UInt8.lt_iff_toNat_lt, UInt8.reduceToNat]; omega
  have hnext : secondOctet? first second = some b := by
    apply secondOctet?_eq hsecond hb <;> omega
  rw [utf8Front, if_neg hone, if_neg hlow, if_neg hhigh, hnext]
  dsimp only
  rw [if_pos htwo, hfirst, Nat.add_sub_cancel]

theorem utf8Front_three (hfirst : first.toNat = a + 0xE0) (ha : a < 16)
    (hsecond : second.toNat = b + 0x80) (hb : b < 64) (hthird : third.toNat = c + 0x80)
    (hc : c < 64) (hlong : a = 0 → 0x20 ≤ b) (hpair : a = 13 → b < 0x20) (rest : List UInt8) :
    utf8Front first (second :: third :: rest) = .ok (Char.ofNat ((a * 64 + b) * 64 + c), 3) := by
  obtain ⟨hone, hlow, hhigh⟩ := not_short first (by omega)
  have htwo : ¬ first < 0xE0 := by simp only [UInt8.lt_iff_toNat_lt, UInt8.reduceToNat]; omega
  have hthree : first < 0xF0 := by simp only [UInt8.lt_iff_toNat_lt, UInt8.reduceToNat]; omega
  have hnext : secondOctet? first second = some b := by
    apply secondOctet?_eq hsecond hb <;> omega
  rw [utf8Front, if_neg hone, if_neg hlow, if_neg hhigh, hnext]
  dsimp only
  rw [if_neg htwo, continuation?_eq hthird hc]
  dsimp only
  rw [if_pos hthree, hfirst, Nat.add_sub_cancel]

theorem utf8Front_four (hfirst : first.toNat = a + 0xF0) (ha : a < 5)
    (hsecond : second.toNat = b + 0x80) (hb : b < 64) (hthird : third.toNat = c + 0x80)
    (hc : c < 64) (hfourth : fourth.toNat = d + 0x80) (hd : d < 64) (hlong : a = 0 → 0x10 ≤ b)
    (hlast : a = 4 → b < 0x10) (rest : List UInt8) :
    utf8Front first (second :: third :: fourth :: rest) =
      .ok (Char.ofNat (((a * 64 + b) * 64 + c) * 64 + d), 4) := by
  obtain ⟨hone, hlow, hhigh⟩ := not_short first (by omega)
  have htwo : ¬ first < 0xE0 := by simp only [UInt8.lt_iff_toNat_lt, UInt8.reduceToNat]; omega
  have hthree : ¬ first < 0xF0 := by simp only [UInt8.lt_iff_toNat_lt, UInt8.reduceToNat]; omega
  have hnext : secondOctet? first second = some b := by
    apply secondOctet?_eq hsecond hb <;> omega
  rw [utf8Front, if_neg hone, if_neg hlow, if_neg hhigh, hnext]
  dsimp only
  rw [if_neg htwo, continuation?_eq hthird hc]
  dsimp only
  rw [if_neg hthree, continuation?_eq hfourth hd]
  dsimp only
  rw [hfirst, Nat.add_sub_cancel]

theorem toNat_ofNat {n : Nat} (h : n < 256) : (UInt8.ofNat n).toNat = n := by
  rw [UInt8.toNat_ofNat', Nat.mod_eq_of_lt h]

/-- **The octets of a character are read as that character.** -/
theorem utf8Front_utf8EncodeChar (x : Char) (rest : List UInt8) :
    ∃ octet more, String.utf8EncodeChar x = octet :: more ∧
      utf8Front octet (more ++ rest) = .ok (x, more.length + 1) := by
  have hvalid : x.toNat < 0xD800 ∨ 0xDFFF < x.toNat ∧ x.toNat < 0x110000 := x.valid
  have hback : ∀ n, n = x.toNat → Char.ofNat n = x := by
    rintro n rfl
    exact Char.ofNat_toNat x
  rw [String.utf8EncodeChar, show x.val.toNat = x.toNat from rfl]
  generalize x.toNat = n at hvalid hback
  split_ifs with hone htwo hthree
  · refine ⟨_, _, rfl, ?_⟩
    have hn : (UInt8.ofNat n).toNat = n := toNat_ofNat (by omega)
    rw [utf8Front_one (by omega), hn, hback n rfl]
    rfl
  · refine ⟨_, _, rfl, ?_⟩
    rw [List.singleton_append, utf8Front_two (toNat_ofNat (by omega)) (by omega)
      (toNat_ofNat (by omega)) (by omega), hback _ (by omega)]
    rfl
  · refine ⟨_, _, rfl, ?_⟩
    rw [List.cons_append, List.singleton_append, utf8Front_three (toNat_ofNat (by omega))
      (by omega) (toNat_ofNat (by omega)) (by omega) (toNat_ofNat (by omega)) (by omega)
      (by omega) (by omega), hback _ (by omega)]
    rfl
  · refine ⟨_, _, rfl, ?_⟩
    rw [List.cons_append, List.cons_append, List.singleton_append,
      utf8Front_four (toNat_ofNat (by omega)) (by omega) (toNat_ofNat (by omega)) (by omega)
      (toNat_ofNat (by omega)) (by omega) (toNat_ofNat (by omega)) (by omega) (by omega)
      (by omega), hback _ (by omega)]
    rfl

/-! ## Whole texts -/

theorem utf8DecodeFrom_skip (position : Nat) (skipped rest : List UInt8) :
    utf8DecodeFrom position skipped.length (skipped ++ rest) =
      utf8DecodeFrom (position + skipped.length) 0 rest := by
  induction skipped generalizing position with
  | nil => rfl
  | cons octet skipped ih =>
    rw [List.length_cons, List.cons_append, utf8DecodeFrom, ih, Nat.add_right_comm, Nat.add_assoc]

theorem utf8DecodeFrom_flatMap (cs : List Char) (position : Nat) :
    utf8DecodeFrom position 0 (cs.flatMap String.utf8EncodeChar) = .ok cs := by
  induction cs generalizing position with
  | nil => rfl
  | cons x cs ih =>
    obtain ⟨octet, more, hoctets, hfront⟩ :=
      utf8Front_utf8EncodeChar x (cs.flatMap String.utf8EncodeChar)
    rw [List.flatMap_cons, hoctets, List.cons_append, utf8DecodeFrom, hfront]
    dsimp only
    rw [Nat.add_sub_cancel, utf8DecodeFrom_skip, ih]
    rfl

/-- **The octets of a text are decoded as the text.** -/
theorem utf8Decode_octets (text : String) : utf8Decode (utf8Octets text) = .ok text := by
  have hoctets : utf8Octets text = text.toList.flatMap String.utf8EncodeChar := by
    rw [utf8Octets, String.toUTF8_eq_toByteArray, ← String.utf8Encode_toList, List.utf8Encode,
      List.toList_data_toByteArray]
  rw [utf8Decode, hoctets, utf8DecodeFrom_flatMap]
  exact congrArg Except.ok String.ofList_toList

end SchemaForms.Text
