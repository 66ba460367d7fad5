import Mathlib.Data.List.TakeWhile
import Mathlib.Tactic.IntervalCases
import SchemaForms.Timestamp

/-!
# Dates and times as they are written

A `Timestamp` *writes* a text that puts its fields one behind the other, in decimal digits of fixed
width (`Writes`), and it is a moment if there is such a day in the calendar and such a time of the
day (`IsMoment`). A text is a date and time exactly if it is what a moment writes
(`isTimestamp_iff_writes`): taking a text apart gives the fields that write it
(`ofChars?_eq_some_iff`).
-/

namespace SchemaForms

namespace Timestamp

/-- The last digits of a number in decimal, as many as there is room for. -/
def decimal : (width : Nat) → Nat → List Char
  | 0, _ => []
  | width + 1, n => decimal width (n / 10) ++ [Nat.digitChar (n % 10)]

/-- A day of the Gregorian calendar, extended to all years. -/
inductive IsDay (year : Nat) : (month day : Nat) → Prop
  | ofLongMonth {month day : Nat} (hmonth : month ∈ [1, 3, 5, 7, 8, 10, 12])
      (hday : 1 ≤ day ∧ day ≤ 31) : IsDay year month day
  | ofShortMonth {month day : Nat} (hmonth : month ∈ [4, 6, 9, 11])
      (hday : 1 ≤ day ∧ day ≤ 30) : IsDay year month day
  | ofFebruary {day : Nat} (hday : 1 ≤ day ∧ day ≤ 28) : IsDay year 2 day
  | leapDay (h : 4 ∣ year ∧ ¬ 100 ∣ year ∨ 400 ∣ year) : IsDay year 2 29

/-- The fields are a day of the calendar in a year of four digits, a time of the day and an
offset. -/
structure IsMoment (t : Timestamp) : Prop where
  year : t.year ≤ 9999
  day : IsDay t.year t.month t.day
  hour : t.hour ≤ 23
  minute : t.minute ≤ 59
  /-- The last second of a day may be a leap second. -/
  second : t.second ≤ 60
  offset : t.offset.1 ≤ 23 ∧ t.offset.2 ≤ 59

/-- A fraction of a second: nothing, or a point and digits. -/
inductive IsFraction : List Char → Prop
  | absent : IsFraction []
  | digits {ds : List Char} (hne : ds ≠ []) (h : ∀ c ∈ ds, '0' ≤ c ∧ c ≤ '9') :
      IsFraction ('.' :: ds)

/-- The text of an offset, its sign apart: a letter for none, or hours and minutes. -/
inductive IsZone : (offset : Nat × Nat) → List Char → Prop
  | zulu {c : Char} (h : c = 'Z' ∨ c = 'z') : IsZone (0, 0) [c]
  | signed {sign : Char} (h : sign = '+' ∨ sign = '-') (hour minute : Nat) :
      IsZone (hour, minute) (sign :: decimal 2 hour ++ ':' :: decimal 2 minute)

/-- The text has the fields one behind the other. -/
def Writes (t : Timestamp) (text : List Char) : Prop :=
  ∃ separator fraction zone, (separator = 'T' ∨ separator = 't') ∧ IsFraction fraction ∧
    IsZone t.offset zone ∧
    text = decimal 4 t.year ++ '-' :: decimal 2 t.month ++ '-' :: decimal 2 t.day ++
      separator :: decimal 2 t.hour ++ ':' :: decimal 2 t.minute ++ ':' :: decimal 2 t.second ++
      fraction ++ zone

/-! ## Digits -/

theorem digit?_eq_some_iff (c : Char) (d : Nat) :
    digit? c = some d ↔ d < 10 ∧ c = Nat.digitChar d := by
  constructor
  · intro h
    rw [digit?] at h
    split_ifs at h with hc
    obtain rfl := Option.some.inj h
    have hlow : 48 ≤ c.toNat := hc.1
    have hhigh : c.toNat ≤ 57 := hc.2
    refine ⟨?_, ?_⟩
    · show c.toNat - 48 < 10
      omega
    · show c = Nat.digitChar (c.toNat - 48)
      rw [← Char.ofNat_toNat c]
      generalize c.toNat = n at *
      interval_cases n <;> rfl
  · rintro ⟨hd, rfl⟩
    interval_cases d <;> rfl

theorem digit?_isSome_iff (c : Char) : (digit? c).isSome ↔ '0' ≤ c ∧ c ≤ '9' := by
  rw [digit?]
  split_ifs with hc
  · simp [hc]
  · simp [hc]

theorem two?_eq_some_iff (a b : Char) (n : Nat) :
    two? a b = some n ↔ n < 100 ∧ [a, b] = decimal 2 n := by
  simp only [two?, Option.bind_eq_bind, Option.bind_eq_some_iff, digit?_eq_some_iff, decimal,
    List.nil_append, List.cons_append, List.cons.injEq, and_true, Option.some.injEq]
  constructor
  · rintro ⟨x, ⟨hx, rfl⟩, y, ⟨hy, rfl⟩, rfl⟩
    refine ⟨by omega, ?_, ?_⟩
    · rw [show (10 * x + y) / 10 % 10 = x by omega]
    · rw [show (10 * x + y) % 10 = y by omega]
  · rintro ⟨hn, ha, hb⟩
    exact ⟨n / 10 % 10, ⟨by omega, ha⟩, n % 10, ⟨by omega, hb⟩, by omega⟩

/-- Four digits are two and two. -/
theorem decimal_four (n : Nat) : decimal 4 n = decimal 2 (n / 100) ++ decimal 2 (n % 100) := by
  simp only [decimal, List.nil_append, List.cons_append, List.cons.injEq, and_true]
  refine ⟨?_, ?_, ?_, ?_⟩ <;> congr 1 <;> omega

theorem four?_eq_some_iff (a b c d : Char) (n : Nat) :
    four? a b c d = some n ↔ n < 10000 ∧ [a, b, c, d] = decimal 4 n := by
  have hsplit : [a, b, c, d] = decimal 4 n ↔
      [a, b] = decimal 2 (n / 100) ∧ [c, d] = decimal 2 (n % 100) := by
    rw [decimal_four]
    simp [decimal, and_assoc]
  rw [hsplit]
  simp only [four?, Option.bind_eq_bind, Option.bind_eq_some_iff, two?_eq_some_iff,
    Option.some.injEq]
  constructor
  · rintro ⟨x, ⟨hx, hab⟩, y, ⟨hy, hcd⟩, rfl⟩
    refine ⟨by omega, ?_, ?_⟩
    · rwa [show (100 * x + y) / 100 = x by omega]
    · rwa [show (100 * x + y) % 100 = y by omega]
  · rintro ⟨hn, hab, hcd⟩
    exact ⟨n / 100, ⟨by omega, hab⟩, n % 100, ⟨by omega, hcd⟩, by omega⟩

/-! ## Fraction and offset -/

theorem isFraction_of_dropFraction? {cs rest : List Char} (h : dropFraction? cs = some rest) :
    ∃ fraction, IsFraction fraction ∧ cs = fraction ++ rest := by
  unfold dropFraction? at h
  split at h
  case h_1 c tail =>
    split_ifs at h with hc
    obtain rfl := Option.some.inj h
    refine ⟨'.' :: c :: tail.takeWhile fun c => (digit? c).isSome, .digits (by simp) ?_, ?_⟩
    · refine List.forall_mem_cons.mpr ⟨(digit?_isSome_iff c).mp hc, fun d hd => ?_⟩
      exact (digit?_isSome_iff d).mp (List.mem_takeWhile_imp (p := fun c => (digit? c).isSome) hd)
    · simp
  case h_2 =>
    obtain rfl := Option.some.inj h
    exact ⟨[], .absent, rfl⟩

/-- What follows a fraction is left, as it starts with none of its characters. -/
theorem dropFraction?_append {fraction rest : List Char} {first : Char}
    (h : IsFraction fraction) (hpoint : first ≠ '.') (hdigit : digit? first = none) :
    dropFraction? (fraction ++ first :: rest) = some (first :: rest) := by
  cases h with
  | absent =>
    unfold dropFraction?
    split
    · simp_all
    · rfl
  | digits hne h =>
    obtain ⟨c, ds, rfl⟩ := List.exists_cons_of_ne_nil hne
    obtain ⟨hc, hds⟩ := List.forall_mem_cons.mp h
    have hall : ∀ d ∈ ds, (digit? d).isSome := fun d hd => (digit?_isSome_iff d).mpr (hds d hd)
    simp only [List.cons_append, dropFraction?, (digit?_isSome_iff c).mpr hc, if_true,
      List.dropWhile_append_of_pos hall]
    simp [hdigit]

theorem offset?_eq_some_iff (cs : List Char) (offset : Nat × Nat) :
    offset? cs = some offset ↔ IsZone offset cs ∧ offset.1 < 100 ∧ offset.2 < 100 := by
  constructor
  · intro h
    unfold offset? at h
    split at h
    case h_1 c =>
      split_ifs at h with hc
      obtain rfl := Option.some.inj h
      exact ⟨.zulu hc, by decide, by decide⟩
    case h_2 sign x x' y y' =>
      split_ifs at h with hsign
      simp only [Option.bind_eq_bind, Option.bind_eq_some_iff, two?_eq_some_iff,
        Option.some.injEq] at h
      obtain ⟨hour, ⟨hhour, hx⟩, minute, ⟨hminute, hy⟩, rfl⟩ := h
      have hzone := IsZone.signed hsign hour minute
      rw [← hx, ← hy] at hzone
      exact ⟨hzone, hhour, hminute⟩
    case h_3 => cases h
  · rintro ⟨hzone, hhour, hminute⟩
    cases hzone with
    | zulu hc => exact if_pos hc
    | signed hsign hour minute =>
      have hx := (two?_eq_some_iff _ _ hour).mpr ⟨hhour, rfl⟩
      have hy := (two?_eq_some_iff _ _ minute).mpr ⟨hminute, rfl⟩
      show (if _ then _ else _) = _
      rw [if_pos hsign, hx, hy]
      rfl

/-- An offset starts with a letter or a sign. -/
theorem IsZone.exists_first {offset : Nat × Nat} {zone : List Char} (h : IsZone offset zone) :
    ∃ first rest, zone = first :: rest ∧ first ≠ '.' ∧ digit? first = none := by
  cases h with
  | zulu hc => exact ⟨_, _, rfl, by rcases hc with rfl | rfl <;> decide⟩
  | signed hsign hour minute => exact ⟨_, _, rfl, by rcases hsign with rfl | rfl <;> decide⟩

/-! ## The calendar -/

theorem daysInMonth_of_long {month : Nat} (year : Nat) (h : month ∈ [1, 3, 5, 7, 8, 10, 12]) :
    daysInMonth year month = 31 := by
  simp only [List.mem_cons, List.not_mem_nil, or_false] at h
  rcases h with rfl | rfl | rfl | rfl | rfl | rfl | rfl <;> rfl

theorem daysInMonth_of_short {month : Nat} (year : Nat) (h : month ∈ [4, 6, 9, 11]) :
    daysInMonth year month = 30 := by
  simp only [List.mem_cons, List.not_mem_nil, or_false] at h
  rcases h with rfl | rfl | rfl | rfl <;> rfl

theorem isLeap_iff (year : Nat) :
    isLeap year = true ↔ 4 ∣ year ∧ ¬ 100 ∣ year ∨ 400 ∣ year := by
  simp only [isLeap, Bool.and_eq_true, Bool.or_eq_true, decide_eq_true_eq]
  omega

theorem isDay_iff (year month day : Nat) :
    IsDay year month day ↔
      (1 ≤ month ∧ month ≤ 12) ∧ 1 ≤ day ∧ day ≤ daysInMonth year month := by
  constructor
  · intro h
    cases h with
    | ofLongMonth hmonth hday =>
      rw [daysInMonth_of_long year hmonth]
      exact ⟨by simp at hmonth; omega, hday⟩
    | ofShortMonth hmonth hday =>
      rw [daysInMonth_of_short year hmonth]
      exact ⟨by simp at hmonth; omega, hday⟩
    | ofFebruary hday =>
      refine ⟨by decide, hday.1, ?_⟩
      simp only [daysInMonth]
      split_ifs <;> omega
    | leapDay h => simp [daysInMonth, (isLeap_iff year).mpr h]
  · rintro ⟨⟨hfirst, hlast⟩, hday⟩
    by_cases hlong : month ∈ [1, 3, 5, 7, 8, 10, 12]
    · exact .ofLongMonth hlong (daysInMonth_of_long year hlong ▸ hday)
    by_cases hshort : month ∈ [4, 6, 9, 11]
    · exact .ofShortMonth hshort (daysInMonth_of_short year hshort ▸ hday)
    obtain rfl : month = 2 := by
      simp only [List.mem_cons, List.not_mem_nil, or_false, not_or] at hlong hshort
      omega
    simp only [daysInMonth] at hday
    split_ifs at hday with hleap
    · by_cases hd : day ≤ 28
      · exact .ofFebruary ⟨hday.1, hd⟩
      · obtain rfl : day = 29 := by omega
        exact .leapDay ((isLeap_iff year).mp hleap)
    · exact .ofFebruary hday

theorem isMoment_iff (t : Timestamp) : t.IsMoment ↔ t.year ≤ 9999 ∧ t.IsValid := by
  rw [IsValid, ← and_assoc (a := 1 ≤ t.month ∧ t.month ≤ 12), ← isDay_iff]
  constructor
  · exact fun h => ⟨h.year, h.day, h.hour, h.minute, h.second, h.offset⟩
  · rintro ⟨hyear, hday, hhour, hminute, hsecond, hoffset⟩
    exact ⟨hyear, hday, hhour, hminute, hsecond, hoffset⟩

theorem daysInMonth_le (year month : Nat) : daysInMonth year month ≤ 31 := by
  unfold daysInMonth
  split
  · split_ifs <;> decide
  all_goals decide

/-! ## Whole texts -/

/-- The fields of a text write it. -/
theorem writes_of_ofChars? {cs : List Char} {t : Timestamp} (h : ofChars? cs = some t) :
    t.Writes cs ∧ t.year < 10000 := by
  unfold ofChars? at h
  split at h
  case h_1 y y' y'' y''' o o' d d' separator a a' m m' s s' rest =>
    simp only [Option.bind_eq_bind, Option.bind_eq_some_iff, four?_eq_some_iff,
      two?_eq_some_iff, offset?_eq_some_iff] at h
    obtain ⟨year, ⟨hyear, hy⟩, month, ⟨-, ho⟩, day, ⟨-, hd⟩, hour, ⟨-, ha⟩, minute, ⟨-, hm⟩,
      second, ⟨-, hs⟩, zone, hrest, offset, ⟨hzone, -⟩, h⟩ := h
    split_ifs at h with hseparator
    obtain rfl := Option.some.inj h
    obtain ⟨fraction, hfraction, rfl⟩ := isFraction_of_dropFraction? hrest
    refine ⟨⟨separator, fraction, zone, hseparator, hfraction, hzone, ?_⟩, hyear⟩
    simp only [← hy, ← ho, ← hd, ← ha, ← hm, ← hs, List.cons_append, List.nil_append]
  case h_2 => cases h

/-- The text that a moment writes is taken apart into its fields. -/
theorem ofChars?_eq_some_of_writes {cs : List Char} {t : Timestamp} (h : t.Writes cs)
    (ht : t.IsMoment) : ofChars? cs = some t := by
  obtain ⟨separator, fraction, zone, hseparator, hfraction, hzone, rfl⟩ := h
  obtain ⟨first, rest, rfl, hpoint, hdigit⟩ := hzone.exists_first
  obtain ⟨hy, ⟨-, ho⟩, ⟨-, hd⟩, hh, hm, hs, hz⟩ := (isMoment_iff _).mp ht
  have hdays := daysInMonth_le t.year t.month
  have hyear := (four?_eq_some_iff _ _ _ _ t.year).mpr ⟨by omega, rfl⟩
  have htwo : ∀ n, n < 100 →
      two? (Nat.digitChar (n / 10 % 10)) (Nat.digitChar (n % 10)) = some n :=
    fun n hn => (two?_eq_some_iff _ _ n).mpr ⟨hn, rfl⟩
  have hoffset := (offset?_eq_some_iff (first :: rest) t.offset).mpr ⟨hzone, by omega, by omega⟩
  simp only [decimal, List.nil_append, List.cons_append, ofChars?]
  rw [dropFraction?_append hfraction hpoint hdigit, htwo t.month (by omega), htwo t.day (by omega),
    htwo t.hour (by omega), htwo t.minute (by omega), htwo t.second (by omega), hyear]
  simp only [Option.bind_eq_bind, Option.bind_some, hoffset, if_pos hseparator]

end Timestamp

/-- **The texts of the type are the dates and times of RFC 3339**: a day of the calendar, a time of
that day that may be a leap second, a fraction if there is one, and an offset, in decimal digits of
ASCII and with nothing in front or behind. -/
theorem isTimestamp_iff_writes (text : String) :
    isTimestamp text = true ↔ ∃ t : Timestamp, t.IsMoment ∧ t.Writes text.toList := by
  rw [isTimestamp]
  constructor
  · intro h
    split at h
    case h_1 t ht =>
      obtain ⟨hwrites, hyear⟩ := Timestamp.writes_of_ofChars? ht
      exact ⟨t, t.isMoment_iff.mpr ⟨by omega, of_decide_eq_true h⟩, hwrites⟩
    case h_2 => cases h
  · rintro ⟨t, ht, hwrites⟩
    rw [Timestamp.ofChars?_eq_some_of_writes hwrites ht]
    exact decide_eq_true (t.isMoment_iff.mp ht).2

end SchemaForms
