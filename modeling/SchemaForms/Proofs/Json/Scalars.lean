import SchemaForms.Json.Writer
import SchemaForms.Proofs.Json.Reader
import SchemaForms.Proofs.Number.Layout

/-!
# Strings and scalars read back

What the writer makes of a string, a number or a word is what the reader takes off the front of a
text, whatever follows a string (`Json.readString_flatMap`), and whatever follows a scalar that
does not continue a number (`Json.readScalar_writeNumber`).
-/

namespace SchemaForms.Json

open SchemaForms.Number (Double DecimalText AllDigits IsWhole Layout digitsValue digitLimit
  fractionPart exponentText)
open SchemaForms.Text (Halves hexPadded hexNumber? isHighSurrogate isLowSurrogate loneUnit)

variable {halves : Halves} {opening : Nat} {after rest more cs : List Char}

/-! ## Strings -/

/-- An escape of one letter. -/
theorem readChars_shortEscape {letter c : Char} (hletter : shortEscape? letter = some c)
    (h : readChars halves opening 0 after = .ok (more, rest)) :
    readChars halves opening 0 ('\\' :: letter :: after) = .ok (c :: more, rest) := by
  have hu : letter ≠ 'u' := by
    rintro rfl
    cases hletter
  have hskip : readChars halves opening 1 (letter :: after) = .ok (more, rest) := by
    rw [readChars, h]
  rw [readChars]
  dsimp only
  rw [if_neg hu, hletter]
  dsimp only
  rw [hskip]
  rfl

/-- The escape of a control character. -/
theorem unicodeEscape_hexPadded (halves : Halves) {n : Nat} (hn : n < 0x20) (e : Char)
    (tail : List Char) :
    unicodeEscape halves (hexPadded 4 n ++ e :: tail) = .ok ⟨Char.ofNat n, 4⟩ := by
  have hdigits : ∀ n < 0x20, hexPadded 4 n =
      ['0', '0', Nat.digitChar (n / 16), Nat.digitChar (n % 16)] := by decide
  have hvalue : ∀ n < 0x20, hexNumber? (hexPadded 4 n) = some n := by decide
  have hhigh : isHighSurrogate n = false := by
    simp only [isHighSurrogate, Bool.and_eq_false_iff, decide_eq_false_iff_not]
    omega
  have hlone : loneUnit halves n = Char.ofNat n := by
    have hlow : isLowSurrogate n = false := by
      simp only [isLowSurrogate, Bool.and_eq_false_iff, decide_eq_false_iff_not]
      omega
    rw [loneUnit, hhigh, hlow]
    rfl
  have hnumber := hvalue n hn
  rw [hdigits n hn] at hnumber ⊢
  simp only [List.cons_append, List.nil_append, unicodeEscape, hnumber, hhigh, hlone]

/-- The characters of an escape that has been read. -/
theorem readChars_skip (escape after : List Char) :
    readChars halves opening escape.length (escape ++ after) =
      readChars halves opening 0 after := by
  induction escape with
  | nil => rfl
  | cons d escape ih => rw [List.length_cons, List.cons_append, readChars, ih]

theorem readChars_controlEscape {c : Char} (hc : c.toNat < 0x20)
    (h : readChars halves opening 0 after = .ok (more, rest)) :
    readChars halves opening 0 ('\\' :: 'u' :: (hexPadded 4 c.toNat ++ after)) =
      .ok (c :: more, rest) := by
  -- An escape never ends a string, so a character stands behind its digits.
  obtain ⟨e, tail, rfl⟩ : ∃ e tail, after = e :: tail := by
    cases after with
    | nil => cases h
    | cons e tail => exact ⟨e, tail, rfl⟩
  have hescape := unicodeEscape_hexPadded halves hc e tail
  have hlength : (hexPadded 4 c.toNat).length = 4 := by
    have : ∀ n < 0x20, (hexPadded 4 n).length = 4 := by decide
    exact this _ hc
  have hskip : readChars halves opening 4 (hexPadded 4 c.toNat ++ e :: tail) =
      .ok (more, rest) := by
    rw [← h, ← readChars_skip (hexPadded 4 c.toNat) (e :: tail), hlength]
  rw [readChars]
  dsimp only
  rw [if_pos rfl, hescape]
  show (readChars halves opening (1 + 4) ('u' :: (hexPadded 4 c.toNat ++ e :: tail)) >>= _) = _
  rw [Nat.add_comm, readChars, hskip, Char.ofNat_toNat]
  rfl

/-- A character is written as an escape of one letter, as one by its number, or as it is. -/
theorem writeChar_cases (c : Char) :
    (∃ letter, shortEscape? letter = some c ∧ writeChar c = ['\\', letter]) ∨
      (c.toNat < 0x20 ∧ writeChar c = '\\' :: 'u' :: hexPadded 4 c.toNat) ∨
      (0x20 ≤ c.toNat ∧ c ≠ '\x22' ∧ c ≠ '\\' ∧ writeChar c = [c]) := by
  simp only [writeChar]
  split_ifs with hquote hbackslash hnewline hreturn htab hback hfeed hcontrol
  · exact .inl ⟨_, by rw [hquote]; rfl, rfl⟩
  · exact .inl ⟨_, by rw [hbackslash]; rfl, rfl⟩
  · exact .inl ⟨_, by rw [hnewline]; rfl, rfl⟩
  · exact .inl ⟨_, by rw [hreturn]; rfl, rfl⟩
  · exact .inl ⟨_, by rw [htab]; rfl, rfl⟩
  · exact .inl ⟨_, by rw [hback]; rfl, rfl⟩
  · exact .inl ⟨_, by rw [hfeed]; rfl, rfl⟩
  · exact .inr (.inl ⟨hcontrol, rfl⟩)
  · exact .inr (.inr ⟨Nat.not_lt.mp hcontrol, hquote, hbackslash, rfl⟩)

/-- **A character as it is written in a string is read back.** -/
theorem readChars_writeChar (c : Char) (h : readChars halves opening 0 after = .ok (more, rest)) :
    readChars halves opening 0 (writeChar c ++ after) = .ok (c :: more, rest) := by
  obtain ⟨letter, hletter, htext⟩ | ⟨hcontrol, htext⟩ | ⟨hraw, hquote, hbackslash, htext⟩ :=
    writeChar_cases c
  · rw [htext]
    exact readChars_shortEscape hletter h
  · rw [htext]
    exact readChars_controlEscape hcontrol h
  · rw [htext, List.singleton_append, readChars, if_neg (Nat.not_lt.mpr hraw), h]
    · rfl
    · exact hquote
    · exact hbackslash

theorem readChars_flatMap (s rest : List Char) :
    readChars halves opening 0 (s.flatMap writeChar ++ '\x22' :: rest) = .ok (s, rest) := by
  induction s with
  | nil => rfl
  | cons c s ih =>
    rw [List.flatMap_cons, List.append_assoc]
    exact readChars_writeChar c ih

theorem readString_flatMap (s : String) (rest : List Char) :
    readString halves (s.toList.flatMap writeChar ++ '\x22' :: rest) = .ok (s, rest) := by
  rw [readString, readChars_flatMap]
  exact congrArg (fun s => Except.ok (s, rest)) String.ofList_toList

/-! ## The parts of a number -/

/-- What may stand behind a number: nothing that the number could go on with. -/
def NumberEnds (rest : List Char) : Prop :=
  ∀ c, rest.head? = some c → c.isDigit = false ∧ c ≠ '.' ∧ c ≠ 'e' ∧ c ≠ 'E'

/-- No digit stands in front. -/
def NoDigitFront (rest : List Char) : Prop :=
  ∀ c, rest.head? = some c → c.isDigit = false

theorem NumberEnds.noDigitFront (h : NumberEnds rest) : NoDigitFront rest :=
  fun c hc => (h c hc).1

theorem noDigitFront_cons {c : Char} (h : c.isDigit = false) : NoDigitFront (c :: rest) := by
  intro d hd
  cases hd
  exact h

theorem isDigit_eq (c : Char) : isDigit c = c.isDigit := rfl

/-- The digits in front of a text, up to the first character that is none. -/
theorem takeWhile_digits {digits : List Char} (hdigits : AllDigits digits)
    (hrest : NoDigitFront rest) :
    (digits ++ rest).takeWhile isDigit = digits ∧ (digits ++ rest).dropWhile isDigit = rest := by
  have hfront : rest.takeWhile isDigit = [] ∧ rest.dropWhile isDigit = rest := by
    cases rest with
    | nil => exact ⟨rfl, rfl⟩
    | cons c rest =>
      have hc : ¬ isDigit c = true := by
        rw [isDigit_eq, hrest c rfl]
        exact Bool.false_ne_true
      exact ⟨List.takeWhile_cons_of_neg hc, List.dropWhile_cons_of_neg hc⟩
  have hall : ∀ c ∈ digits, isDigit c = true := hdigits
  constructor
  · rw [List.takeWhile_append_of_pos hall, hfront.1, List.append_nil]
  · rw [List.dropWhile_append_of_pos hall, hfront.2]

theorem takeWhole_append {whole : List Char} (hwhole : IsWhole whole) (hrest : NoDigitFront rest) :
    takeWhole (whole ++ rest) = (whole, rest) := by
  rcases hwhole with rfl | ⟨hne, hhead, hall⟩
  · rfl
  · obtain ⟨d, digits, rfl⟩ := List.exists_cons_of_ne_nil hne
    obtain ⟨htake, hdrop⟩ := takeWhile_digits hall hrest
    rw [List.cons_append] at htake hdrop ⊢
    rw [takeWhole, htake, hdrop]
    rintro _ ⟨rfl, -⟩
    exact hhead rfl

theorem takePlaces_append {places : List Char} (hplaces : AllDigits places)
    (hpoint : rest.head? ≠ some '.') (hrest : NoDigitFront rest) :
    takePlaces (fractionPart places ++ rest) =
      (if places = [] then none else some places, rest) := by
  cases places with
  | nil =>
    rw [fractionPart, List.nil_append, takePlaces, if_pos rfl]
    rintro after rfl
    exact hpoint rfl
  | cons d places =>
    obtain ⟨htake, hdrop⟩ := takeWhile_digits hplaces hrest
    rw [fractionPart, List.cons_append, takePlaces, if_neg (List.cons_ne_nil _ _), htake, hdrop]
    · rfl
    · exact List.cons_ne_nil _ _

theorem takeExponent_of_head? (he : rest.head? ≠ some 'e') (hE : rest.head? ≠ some 'E') :
    takeExponent rest = (none, rest) := by
  cases rest with
  | nil => rfl
  | cons mark rest =>
    have hmark : (mark = 'e' || mark = 'E') = false := by
      simpa using ⟨fun h => he (congrArg some h), fun h => hE (congrArg some h)⟩
    rw [takeExponent]
    dsimp only
    rw [hmark, Bool.false_and]
    rfl

/-- An exponent part is at least two digits behind a sign, worth the exponent. -/
theorem exists_exponentPart (exponent : Int) :
    ∃ digits, Layout.exponentPart exponent =
        'e' :: (if exponent < 0 then '-' else '+') :: digits ∧
      AllDigits digits ∧ digits ≠ [] ∧ digitsValue 10 digits = exponent.natAbs := by
  have hdigits := Number.allDigits_toDigits exponent.natAbs
  refine ⟨_, rfl, (Number.allDigits_zeros _).append hdigits, ?_, ?_⟩
  · simp [Nat.toDigits_ne_nil]
  · rw [Number.digitsValue_zeros_append hdigits, Number.digitsValue_toDigits]

theorem takeExponent_exponentPart (exponent : Int) (hrest : NoDigitFront rest) :
    takeExponent (Layout.exponentPart exponent ++ rest) = (some exponent, rest) := by
  obtain ⟨digits, hpart, hall, hne, hvalue⟩ := exists_exponentPart exponent
  obtain ⟨htake, hdrop⟩ := takeWhile_digits hall hrest
  have hempty : digits.isEmpty = false := by simpa using hne
  rw [hpart]
  by_cases hsign : exponent < 0
  · have habs : -(exponent.natAbs : Int) = exponent := by omega
    rw [if_pos hsign]
    simp only [List.cons_append, takeExponent, Number.takeSign, htake, hdrop, hempty, hvalue]
    simp only [decide_true, Bool.true_or, Bool.not_false, Bool.and_self, if_true, habs]
  · have habs : (exponent.natAbs : Int) = exponent := by omega
    rw [if_neg hsign]
    simp only [List.cons_append, takeExponent, Number.takeSign, htake, hdrop, hempty, hvalue]
    simp only [decide_true, Bool.true_or, Bool.not_false, Bool.and_self, if_true, habs]
    rfl

theorem takeExponent_append (exponent : Option Int) (hrest : NumberEnds rest) :
    takeExponent (exponentText exponent ++ rest) = (exponent, rest) := by
  cases exponent with
  | none =>
    apply takeExponent_of_head?
    · exact fun h => (hrest _ h).2.2.1 rfl
    · exact fun h => (hrest _ h).2.2.2 rfl
  | some exponent => exact takeExponent_exponentPart exponent hrest.noDigitFront

/-- An exponent, if there is one, starts with its letter. -/
theorem head?_exponentText (exponent : Option Int) (hrest : NumberEnds rest) {c : Char}
    (h : (exponentText exponent ++ rest).head? = some c) : c.isDigit = false ∧ c ≠ '.' := by
  cases exponent with
  | none => exact ⟨(hrest c h).1, (hrest c h).2.1⟩
  | some exponent =>
    cases h
    exact ⟨rfl, by decide⟩

/-! ## Numbers -/

/-- **A decimal is read as the double that it writes.** -/
theorem readUnsigned_decimalText {t : DecimalText} (ht : t.WellFormed) (hrest : NumberEnds rest)
    (negative : Bool) (start : List Char) :
    readUnsigned negative start (t.chars ++ rest) = .ok (.double (t.value negative), rest) := by
  have hexponent : NoDigitFront (exponentText t.exponent ++ rest) :=
    fun c hc => (head?_exponentText _ hrest hc).1
  have hpoint : (exponentText t.exponent ++ rest).head? ≠ some '.' :=
    fun h => (head?_exponentText _ hrest h).2 rfl
  have hplaces : NoDigitFront (fractionPart t.places ++ (exponentText t.exponent ++ rest)) := by
    cases t.places with
    | nil => exact hexponent
    | cons d places => exact noDigitFront_cons rfl
  have hwhole : t.whole.isEmpty = false := by simpa using ht.whole.ne_nil
  rw [readUnsigned, DecimalText.chars, List.append_assoc, List.append_assoc,
    takeWhole_append ht.whole hplaces]
  dsimp only
  rw [hwhole, takePlaces_append ht.places hpoint hexponent]
  dsimp only
  rw [takeExponent_append _ hrest]
  have hmarked := ht.marked
  by_cases hnil : t.places = []
  · have hsome : t.exponent.isNone = false := by
      simpa [Option.ne_none_iff_isSome] using hmarked.resolve_left (fun h => h hnil)
    simp [hnil, hsome, DecimalText.value]
  · simp [hnil, DecimalText.value]

/-- An integer that is not too long is read as it is. -/
theorem readUnsigned_toDigits {n : Nat} (hn : (Nat.toDigits 10 n).length ≤ digitLimit)
    (hrest : NumberEnds rest) (negative : Bool) (start : List Char) :
    readUnsigned negative start (Nat.toDigits 10 n ++ rest) =
      .ok (.int (if negative then -n else n), rest) := by
  have hempty : (Nat.toDigits 10 n).isEmpty = false := by simp [Nat.toDigits_ne_nil]
  have hpoint : rest.head? ≠ some '.' := fun h => (hrest _ h).2.1 rfl
  have hplaces := takePlaces_append Number.allDigits_nil hpoint hrest.noDigitFront
  rw [fractionPart, List.nil_append, if_pos rfl] at hplaces
  have hexponent := takeExponent_append none hrest
  rw [exponentText, List.nil_append] at hexponent
  rw [readUnsigned, takeWhole_append (Number.isWhole_toDigits n) hrest.noDigitFront]
  dsimp only
  rw [hempty, hplaces]
  dsimp only
  rw [hexponent, Number.digitsValue_toDigits]
  simp [Nat.not_lt.mpr hn]

/-! ## Words -/

/-- No word has a digit among its characters, and each has two of them at least. -/
theorem takeWord?_eq_none (h : ∃ c ∈ cs.take 2, c.isDigit = true) : takeWord? cs = none := by
  have hwords : ∀ entry ∈ words, 2 ≤ entry.1.length ∧ entry.1.any Char.isDigit = false := by
    decide
  rw [takeWord?, List.findSome?_eq_none_iff]
  rintro ⟨word, value⟩ hmem
  obtain ⟨hlength, hnone⟩ := hwords _ hmem
  dsimp only at hlength hnone ⊢
  rw [if_neg]
  intro hprefix
  have htake : word = cs.take word.length :=
    List.prefix_iff_eq_take.mp (List.isPrefixOf_iff_prefix.mp hprefix)
  obtain ⟨c, hc, hdigit⟩ := h
  have hmem : c ∈ word := by
    rw [htake]
    exact (List.take_prefix_take_left hlength).subset hc
  exact List.any_eq_false.mp hnone c hmem hdigit

/-- The sign in front of a number. -/
def signText (negative : Bool) : List Char := if negative then ['-'] else []

/-- A number behind its sign is read after the sign, as no word starts so. -/
theorem readScalar_signText {negative : Bool} {number : Number}
    (hfront : ∃ d, cs.head? = some d ∧ d.isDigit = true)
    (hread : ∀ start, readUnsigned negative start cs = .ok (number, rest)) :
    readScalar (signText negative ++ cs) = .ok (.number number, rest) := by
  obtain ⟨d, hhead, hd⟩ := hfront
  obtain ⟨ds, rfl⟩ := List.head?_eq_some_iff.mp hhead
  cases negative with
  | false =>
    have hword : takeWord? (d :: ds) = none := takeWord?_eq_none ⟨d, by simp, hd⟩
    have hminus : d ≠ '-' := by
      rintro rfl
      cases hd
    show readScalar (d :: ds) = _
    rw [readScalar, hword]
    dsimp only
    split
    · next heq => exact absurd (List.cons.inj heq).1 hminus
    · rw [hread]
      rfl
  | true =>
    have hword : takeWord? ('-' :: d :: ds) = none := takeWord?_eq_none ⟨d, by simp, hd⟩
    show readScalar ('-' :: d :: ds) = _
    rw [readScalar, hword]
    show (readUnsigned true ('-' :: d :: ds) (d :: ds) >>= _) = _
    rw [hread]
    rfl

/-- An integer is written as its sign and the digits of its magnitude. -/
theorem writeNumber_int (n : Int) :
    writeNumber (.int n) = signText (decide (n < 0)) ++ Nat.toDigits 10 n.natAbs := by
  cases n with
  | ofNat n => simp [writeNumber, signText, Nat.repr, toString, Int.repr]
  | negSucc n => simp [writeNumber, signText, Nat.repr, toString, Int.repr]

/-- A finite double is written as its sign and a decimal of its magnitude. -/
theorem exists_writeNumber_finite (negative : Bool) (rank : Fin Number.rankCount) :
    ∃ t : DecimalText, writeNumber (.double (.finite negative rank)) =
      signText negative ++ t.chars ∧ Number.WritesRank t rank := by
  obtain ⟨t, htext, ht⟩ := Layout.json.exists_decimalText rank
  refine ⟨t, ?_, ht⟩
  cases negative <;> simp [writeNumber, Layout.write, signText, htext]

theorem readScalar_writeInt {n : Int} (h : (Number.int n).isShowable = true)
    (hrest : NumberEnds rest) :
    readScalar (writeNumber (.int n) ++ rest) = .ok (.number (.int n), rest) := by
  have hlength : (Nat.toDigits 10 n.natAbs).length ≤ digitLimit := by
    simpa [Number.isShowable, Nat.repr, toString] using h
  have hvalue : (if decide (n < 0) then -(n.natAbs : Int) else n.natAbs) = n := by
    by_cases hsign : n < 0
    · rw [decide_eq_true hsign, if_pos rfl]
      omega
    · rw [decide_eq_false hsign, if_neg Bool.false_ne_true]
      omega
  rw [writeNumber_int, List.append_assoc]
  refine readScalar_signText ((Number.isWhole_toDigits _).exists_head? _) fun start => ?_
  rw [readUnsigned_toDigits hlength hrest, hvalue]

theorem readScalar_writeDouble (x : Double) (hrest : NumberEnds rest) :
    readScalar (writeNumber (.double x) ++ rest) = .ok (.number (.double x), rest) := by
  cases x with
  | nan => rfl
  | infinite negative => cases negative <;> rfl
  | finite negative rank =>
    obtain ⟨t, htext, hwell, hvalue⟩ := exists_writeNumber_finite negative rank
    rw [htext, List.append_assoc]
    refine readScalar_signText ?_ fun start => ?_
    · rw [DecimalText.chars, List.append_assoc]
      exact hwell.whole.exists_head? _
    · rw [readUnsigned_decimalText hwell hrest, hvalue]

/-- **A number is read back** from its text, if it is not too long an integer. -/
theorem readScalar_writeNumber {number : Number} (h : number.isShowable = true)
    (hrest : NumberEnds rest) :
    readScalar (writeNumber number ++ rest) = .ok (.number number, rest) := by
  cases number with
  | int n => exact readScalar_writeInt h hrest
  | double x => exact readScalar_writeDouble x hrest

end SchemaForms.Json
