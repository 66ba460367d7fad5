import SchemaForms.Number.Reading
import SchemaForms.Timestamp
import SchemaForms.Value.Basic
import SchemaForms.Yaml.Fault

/-!
# Dates and times under a tag

A scalar that is tagged as a timestamp is a date, or a date and a time with an optional offset. Its
spelling is looser than that of the timestamps in documents: months, days and hours may have one
digit, white space may stand for the letter between date and time, and the offset may be missing.
No JSON text can express such a value, so it becomes a foreign leaf.
-/

namespace SchemaForms.Yaml

open SchemaForms.Number (digitsValue)

/-- A time of day. -/
structure ClockTime where
  hour : Nat
  minute : Nat
  second : Nat
  microsecond : Nat
  /-- The offset in minutes, if there is one. -/
  offset : Option Int
  deriving DecidableEq, Repr

/-- A date, with or without a time. -/
structure Moment where
  year : Nat
  month : Nat
  day : Nat
  time : Option ClockTime
  deriving DecidableEq, Repr

namespace Moment

/-! ## Reading -/

/-- Reads at least `least` and at most `most` digits of ASCII. -/
def number? (least most : Nat) (cs : List Char) : Option (Nat × List Char) :=
  let digits := (cs.take most).takeWhile fun c => '0' ≤ c && c ≤ '9'
  if digits.length < least then none else some (digitsValue 10 digits, cs.drop digits.length)

/-- Passes over a character. -/
def expect? (c : Char) : List Char → Option (List Char)
  | d :: rest => if d = c then some rest else none
  | [] => none

/-- Passes over spaces and tabs. -/
def skipBlanks (cs : List Char) : List Char := cs.dropWhile fun c => c = ' ' || c = '\t'

/-- The fraction of a second in millionths, of which further digits are dropped. -/
def fraction (cs : List Char) : Nat × List Char :=
  match cs with
  | '.' :: rest =>
    let digits := rest.takeWhile fun c => '0' ≤ c && c ≤ '9'
    let places := digits.take 6
    (digitsValue 10 (places ++ List.replicate (6 - places.length) '0'), rest.drop digits.length)
  | _ => (0, cs)

/-- The offset at the end of a time, in minutes; `some none` if there is none. -/
def offset? (cs : List Char) : Option (Option Int) :=
  match skipBlanks cs with
  | [] => if cs.isEmpty then some none else none
  | ['Z'] => some (some 0)
  | sign :: rest => do
    if sign ≠ '+' ∧ sign ≠ '-' then none
    else
      let (hours, rest) ← number? 1 2 rest
      let minutes ← match rest with
        | [] => some 0
        | _ => do
          let rest ← expect? ':' rest
          let (minutes, rest) ← number? 2 2 rest
          if rest.isEmpty then some minutes else none
      let total : Int := hours * 60 + minutes
      some (some (if sign = '-' then -total else total))

/-- What follows the mark between date and time: the letter T in either case, or blanks. -/
def dropTimeMark? (cs : List Char) : Option (List Char) :=
  match cs with
  | 'T' :: rest => some rest
  | 't' :: rest => some rest
  | _ => if (skipBlanks cs).length < cs.length then some (skipBlanks cs) else none

/-- The time that a text ends with. -/
def time? (cs : List Char) : Option ClockTime := do
  let cs ← dropTimeMark? cs
  let (hour, cs) ← number? 1 2 cs
  let cs ← expect? ':' cs
  let (minute, cs) ← number? 2 2 cs
  let cs ← expect? ':' cs
  let (second, cs) ← number? 2 2 cs
  let (microsecond, cs) := fraction cs
  let offset ← offset? cs
  some ⟨hour, minute, second, microsecond, offset⟩

/-- The date and time that a text writes. One line feed at its end does not count. -/
def ofText? (text : String) : Option Moment := do
  let cs := text.toList
  let cs := if cs.getLast? = some '\n' then cs.dropLast else cs
  let (year, cs) ← number? 4 4 cs
  let cs ← expect? '-' cs
  let (month, cs) ← number? 1 2 cs
  let cs ← expect? '-' cs
  let (day, cs) ← number? 1 2 cs
  if cs.isEmpty then some ⟨year, month, day, none⟩
  else
    let time ← time? cs
    some ⟨year, month, day, some time⟩

/-! ## Display -/

/-- A span of time in a message: whole days downwards, and the seconds above them. -/
def displaySpan (minutes : Int) : String :=
  let seconds := minutes * 60
  let days := seconds / 86400
  let rest := seconds % 86400
  let parts := (if days = 0 then [] else ["days=" ++ toString days]) ++
    (if rest = 0 then [] else ["seconds=" ++ toString rest])
  "datetime.timedelta(" ++ (if parts = [] then "0" else ", ".intercalate parts) ++ ")"

/-- An offset in a message. -/
def displayOffset (minutes : Int) : String :=
  if minutes = 0 then "datetime.timezone.utc"
  else "datetime.timezone(" ++ displaySpan minutes ++ ")"

/-- A date and time in a message. Seconds are left out where they and their fraction are zero. -/
def display (m : Moment) : String :=
  let date := [m.year, m.month, m.day]
  match m.time with
  | none => "datetime.date(" ++ ", ".intercalate (date.map toString) ++ ")"
  | some t =>
    let clock := [t.hour, t.minute] ++
      (if t.microsecond ≠ 0 then [t.second, t.microsecond]
       else if t.second ≠ 0 then [t.second]
       else [])
    let offset := match t.offset with
      | none => []
      | some minutes => ["tzinfo=" ++ displayOffset minutes]
    "datetime.datetime(" ++ ", ".intercalate ((date ++ clock).map toString ++ offset) ++ ")"

/-- The class of a date, or of a date and time. -/
def className (m : Moment) : String := if m.time.isSome then "datetime" else "date"

/-! ## Calendar and clock -/

/-- What is wrong with the offset of a time: it has to be less than a day. -/
def offsetFault? (t : ClockTime) : Option String :=
  t.offset.bind fun minutes =>
    if -1440 < minutes ∧ minutes < 1440 then none
    else some ("offset must be a timedelta strictly between -timedelta(hours=24) and " ++
      "timedelta(hours=24), not " ++ displaySpan minutes ++ ".")

/-- What is wrong with a date: it has to be in the calendar of the years from 1 on. -/
def dateFault? (m : Moment) : Option String :=
  if m.year = 0 then some "year 0 is out of range"
  else if m.month < 1 ∨ 12 < m.month then some "month must be in 1..12"
  else if m.day < 1 ∨ Timestamp.daysInMonth m.year m.month < m.day then
    some "day is out of range for month"
  else none

/-- What is wrong with a time of day; the leap second is not known here. -/
def timeFault? (t : ClockTime) : Option String :=
  if 23 < t.hour then some "hour must be in 0..23"
  else if 59 < t.minute then some "minute must be in 0..59"
  else if 59 < t.second then some "second must be in 0..59"
  else none

/-- What is wrong with a date and time: the offset is looked at first, then the date. -/
def fault? (m : Moment) : Option String :=
  ((m.time.bind offsetFault?).or m.dateFault?).or (m.time.bind timeFault?)

/-- The leaf of a scalar that is tagged as a timestamp. -/
def read (text : String) : Except Error Foreign :=
  match ofText? text with
  | none => .error (.notADate text)
  | some m =>
    match m.fault? with
    | some message => .error (.fieldOutOfRange message)
    | none => .ok (.leaf m.className m.display true)

end Moment

end SchemaForms.Yaml
