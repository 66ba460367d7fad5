/-!
# Timestamps

`isTimestamp` recognises a full date and time with an offset, as RFC 3339 writes it: a date of the
Gregorian calendar, extended to all years from 0000 to 9999, a time of day that may be the leap
second `:60`, an optional fraction, and `Z` or an offset of hours and minutes. All digits are those
of ASCII. The text is first taken apart into a `Timestamp` and then its fields are checked.
-/

namespace SchemaForms

/-- The fields of a date and time. -/
structure Timestamp where
  year : Nat
  month : Nat
  day : Nat
  hour : Nat
  minute : Nat
  second : Nat
  /-- Hours and minutes of the offset, its sign apart; `Z` is no offset. -/
  offset : Nat × Nat
  deriving DecidableEq, Repr

namespace Timestamp

/-- Whether `year` has a 29 February. -/
def isLeap (year : Nat) : Bool :=
  year % 4 = 0 && (year % 100 ≠ 0 || year % 400 = 0)

/-- The number of days of a month. -/
def daysInMonth (year month : Nat) : Nat :=
  match month with
  | 2 => if isLeap year then 29 else 28
  | 4 | 6 | 9 | 11 => 30
  | _ => 31

/-- Whether the fields name a moment: a day of the calendar, a time of day and an offset. -/
def IsValid (t : Timestamp) : Prop :=
  (1 ≤ t.month ∧ t.month ≤ 12) ∧ (1 ≤ t.day ∧ t.day ≤ daysInMonth t.year t.month) ∧
    t.hour ≤ 23 ∧ t.minute ≤ 59 ∧ t.second ≤ 60 ∧ t.offset.1 ≤ 23 ∧ t.offset.2 ≤ 59

instance (t : Timestamp) : Decidable t.IsValid := by
  unfold IsValid
  infer_instance

/-! ## Taking a text apart -/

/-- The value of a digit of ASCII. -/
def digit? (c : Char) : Option Nat :=
  if '0' ≤ c ∧ c ≤ '9' then some (c.toNat - '0'.toNat) else none

/-- The number that two digits write. -/
def two? (a b : Char) : Option Nat := do
  let a ← digit? a
  let b ← digit? b
  some (10 * a + b)

/-- The number that four digits write. -/
def four? (a b c d : Char) : Option Nat := do
  let high ← two? a b
  let low ← two? c d
  some (100 * high + low)

/-- What follows the fraction of a second: a point and at least one digit, or no fraction. -/
def dropFraction? : List Char → Option (List Char)
  | '.' :: c :: rest =>
    if (digit? c).isSome then some (rest.dropWhile fun c => (digit? c).isSome) else none
  | rest => some rest

/-- The offset that a text ends with. -/
def offset? : List Char → Option (Nat × Nat)
  | [c] => if c = 'Z' ∨ c = 'z' then some (0, 0) else none
  | [c, h, h', ':', m, m'] =>
    if c = '+' ∨ c = '-' then do
      let hour ← two? h h'
      let minute ← two? m m'
      some (hour, minute)
    else none
  | _ => none

/-- The fields of a text of the form `2024-02-29T12:00:00.5+01:00`. -/
def ofChars? : List Char → Option Timestamp
  | y :: y' :: y'' :: y''' :: '-' :: o :: o' :: '-' :: d :: d' :: t :: h :: h' :: ':' ::
      m :: m' :: ':' :: s :: s' :: rest => do
    let year ← four? y y' y'' y'''
    let month ← two? o o'
    let day ← two? d d'
    let hour ← two? h h'
    let minute ← two? m m'
    let second ← two? s s'
    let rest ← dropFraction? rest
    let offset ← offset? rest
    if t = 'T' ∨ t = 't' then some ⟨year, month, day, hour, minute, second, offset⟩ else none
  | _ => none

end Timestamp

/-- Whether a text is a full date and time with an offset. -/
def isTimestamp (s : String) : Bool :=
  match Timestamp.ofChars? s.toList with
  | some t => decide t.IsValid
  | none => false

end SchemaForms
