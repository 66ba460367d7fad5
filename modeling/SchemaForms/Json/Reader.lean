import SchemaForms.Json.Fault
import SchemaForms.Number.Reading
import SchemaForms.Text.Surrogate
import SchemaForms.Value.Basic

/-!
# Reading JSON

`Json.read` decodes a JSON text. The words `NaN`, `Infinity` and `-Infinity` are numbers here, a
number without point and exponent is an exact integer, and a repeated key keeps its first place and
takes its last value.

A reader takes the characters that are left and returns what it read with the characters left
after it; a failure carries the number of characters that were left at its place, from which
`Json.readWith` counts the offset. What stands for half a surrogate pair is left to the one who
reads; `Json.read` takes the replacement character.
-/

namespace SchemaForms.Json

open SchemaForms.Number (Double digitsValue decimalLength digitLimit)
open SchemaForms.Text (Halves hexNumber? isHighSurrogate isLowSurrogate joinSurrogates loneUnit)

/-- A failure inside a text. -/
inductive Failure where
  /-- A cause, with so many characters of the text left. -/
  | at (fault : SyntaxFault) (left : Nat)
  | integerTooLong (digits : Nat)
  deriving DecidableEq, Repr

/-- A failure in front of the characters `rest`. -/
def failAt {α : Type} (fault : SyntaxFault) (rest : List Char) : Except Failure α :=
  .error (.at fault rest.length)

/-- White space between the tokens of a JSON text. -/
def isSpace (c : Char) : Bool := c = ' ' || c = '\t' || c = '\n' || c = '\r'

/-- The characters after leading white space. -/
def skipSpace (cs : List Char) : List Char := cs.dropWhile isSpace

section reading
variable (halves : Halves)

/-! ## Strings -/

/-- The character that a letter after a backslash stands for. -/
def shortEscape? (letter : Char) : Option Char :=
  match letter with
  | '\x22' => some '\x22'
  | '\\' => some '\\'
  | '/' => some '/'
  | 'b' => some '\x08'
  | 'f' => some '\x0c'
  | 'n' => some '\n'
  | 'r' => some '\r'
  | 't' => some '\t'
  | _ => none

/-- What stands behind `\u`: a character and how many of the characters belong to it. -/
structure UnicodeEscape where
  char : Char
  width : Nat

/-- Reads what stands behind `\u`. Two escapes that form a surrogate pair are one character. At
least one more character has to follow the digits, as no string ends with an escape. -/
def unicodeEscape (cs : List Char) : Except Failure UnicodeEscape :=
  let invalid (rest : List Char) : Except Failure UnicodeEscape :=
    .error (.at .invalidUnicodeEscape (rest.length + 1))
  match cs with
  | a :: b :: c :: d :: e :: rest =>
    match hexNumber? [a, b, c, d] with
    | none => invalid cs
    | some high =>
      match isHighSurrogate high, e, rest with
      | true, '\\', 'u' :: a' :: b' :: c' :: d' :: _ :: _ =>
        match hexNumber? [a', b', c', d'] with
        | none => invalid (rest.drop 1)
        | some low =>
          if isLowSurrogate low then .ok ⟨joinSurrogates high low, 10⟩
          else .ok ⟨loneUnit halves high, 4⟩
      | _, _, _ => .ok ⟨loneUnit halves high, 4⟩
  | _ => invalid cs

/-- Reads the rest of a string whose opening quote had `opening` characters left. The first `skip`
characters belong to an escape that has been read. -/
def readChars (opening : Nat) : (skip : Nat) → List Char → Except Failure (List Char × List Char)
  | _, [] => .error (.at .unterminatedString opening)
  | skip + 1, _ :: rest => readChars opening skip rest
  | 0, '\x22' :: rest => .ok ([], rest)
  | 0, '\\' :: rest =>
    match rest with
    | [] => .error (.at .unterminatedString opening)
    | letter :: after =>
      if letter = 'u' then do
        let escape ← unicodeEscape halves after
        let (more, rest) ← readChars opening (1 + escape.width) rest
        .ok (escape.char :: more, rest)
      else
        match shortEscape? letter with
        | none => .error (.at .invalidEscape (rest.length + 1))
        | some c => do
          let (more, rest) ← readChars opening 1 rest
          .ok (c :: more, rest)
  | 0, c :: rest =>
    if c.toNat < 0x20 then failAt .invalidControlCharacter (c :: rest)
    else do
      let (more, rest) ← readChars opening 0 rest
      .ok (c :: more, rest)

/-- Reads a string after its opening quote. -/
def readString (cs : List Char) : Except Failure (String × List Char) := do
  let (chars, rest) ← readChars halves (cs.length + 1) 0 cs
  .ok (String.ofList chars, rest)

/-! ## Numbers -/

/-- Whether `c` is a decimal digit of ASCII: no other digits occur in JSON numbers. -/
def isDigit (c : Char) : Bool := '0' ≤ c && c ≤ '9'

/-- The digits of the whole part: a lone zero, or digits that start with no zero. -/
def takeWhole : List Char → List Char × List Char
  | '0' :: rest => (['0'], rest)
  | cs => (cs.takeWhile isDigit, cs.dropWhile isDigit)

/-- The digits behind a point, if at least one follows it. -/
def takePlaces (cs : List Char) : Option (List Char) × List Char :=
  match cs with
  | '.' :: rest =>
    let digits := rest.takeWhile isDigit
    if digits.isEmpty then (none, cs) else (some digits, rest.dropWhile isDigit)
  | _ => (none, cs)

/-- The exponent, if a letter `e`, an optional sign and at least one digit stand there. -/
def takeExponent (cs : List Char) : Option Int × List Char :=
  match cs with
  | mark :: rest =>
    let (negative, rest) := Number.takeSign rest
    let digits := rest.takeWhile isDigit
    if (mark = 'e' || mark = 'E') && !digits.isEmpty then
      let value : Int := digitsValue 10 digits
      (some (if negative then -value else value), rest.dropWhile isDigit)
    else (none, cs)
  | [] => (none, cs)

/-- Reads a number after its sign. `start` is the text from the sign on. -/
def readUnsigned (negative : Bool) (start cs : List Char) : Except Failure (Number × List Char) :=
  let (whole, rest) := takeWhole cs
  if whole.isEmpty then failAt .expectingValue start
  else
    let (places, rest) := takePlaces rest
    let (exponent, rest) := takeExponent rest
    if places.isNone && exponent.isNone then
      if digitLimit < whole.length then .error (.integerTooLong whole.length)
      else
        let value : Int := digitsValue 10 whole
        .ok (.int (if negative then -value else value), rest)
    else
      let places := places.getD []
      let significand := digitsValue 10 (whole ++ places)
      .ok (.double (.ofDecimal negative significand (exponent.getD 0 - places.length)), rest)

/-! ## Values -/

/-- The words of JSON and what they stand for. -/
def words : List (List Char × Value) :=
  [("null".toList, .null), ("true".toList, .bool true), ("false".toList, .bool false),
   ("NaN".toList, .number (.double .nan)),
   ("Infinity".toList, .number (.double (.infinite false))),
   ("-Infinity".toList, .number (.double (.infinite true)))]

/-- The word that `cs` starts with, and what follows it. -/
def takeWord? (cs : List Char) : Option (Value × List Char) :=
  words.findSome? fun (word, value) =>
    if word.isPrefixOf cs then some (value, cs.drop word.length) else none

/-- Reads a word or a number. -/
def readScalar (cs : List Char) : Except Failure (Value × List Char) :=
  match takeWord? cs with
  | some (value, rest) => .ok (value, rest)
  | none => do
    let (number, rest) ← match cs with
      | '-' :: rest => readUnsigned true cs rest
      | _ => readUnsigned false cs cs
    .ok (.number number, rest)

/-- Reads a key and the colon behind it. -/
def readKey (cs : List Char) : Except Failure (String × List Char) :=
  match cs with
  | '\x22' :: rest => do
    let (key, rest) ← readString halves rest
    match skipSpace rest with
    | ':' :: rest => .ok (key, skipSpace rest)
    | rest => failAt .expectingColon rest
  | _ => failAt .expectingPropertyName cs

mutual
/-- Reads a value. Every call reads a character before the next, so fuel for each character is
enough. -/
def readValue : (fuel : Nat) → List Char → Except Failure (Value × List Char)
  | 0, cs => failAt .expectingValue cs
  | fuel + 1, cs =>
    match cs with
    | '\x22' :: rest => do
      let (text, rest) ← readString halves rest
      .ok (.string text, rest)
    | '[' :: rest =>
      match skipSpace rest with
      | ']' :: rest => .ok (.array [], rest)
      | rest => do
        let (items, rest) ← readItems fuel rest
        .ok (.array items, rest)
    | '\x7b' :: rest =>
      match skipSpace rest with
      | '\x7d' :: rest => .ok (.object [], rest)
      | rest => do
        let (members, rest) ← readMembers fuel rest
        .ok (.object (collectMembers members), rest)
    | _ => readScalar cs

/-- Reads the items of an array and the bracket behind them. -/
def readItems : (fuel : Nat) → List Char → Except Failure (List Value × List Char)
  | 0, cs => failAt .expectingValue cs
  | fuel + 1, cs => do
    let (item, rest) ← readValue fuel cs
    match skipSpace rest with
    | ']' :: rest => .ok ([item], rest)
    | ',' :: rest => do
      let (items, rest) ← readItems fuel (skipSpace rest)
      .ok (item :: items, rest)
    | rest => failAt .expectingComma rest

/-- Reads the members of an object and the brace behind them. -/
def readMembers : (fuel : Nat) → List Char → Except Failure (List (String × Value) × List Char)
  | 0, cs => failAt .expectingPropertyName cs
  | fuel + 1, cs => do
    let (key, rest) ← readKey halves cs
    let (member, rest) ← readValue fuel rest
    match skipSpace rest with
    | '\x7d' :: rest => .ok ([(key, member)], rest)
    | ',' :: rest => do
      let (members, rest) ← readMembers fuel (skipSpace rest)
      .ok ((key, member) :: members, rest)
    | rest => failAt .expectingComma rest
end

/-- Reads a whole text: one value, with white space around it and nothing else. -/
def readDocument (cs : List Char) : Except Failure Value :=
  match cs with
  | '\ufeff' :: _ => failAt .byteOrderMark cs
  | _ => do
    let (value, rest) ← readValue halves (cs.length + 1) (skipSpace cs)
    match skipSpace rest with
    | [] => .ok value
    | rest => failAt .extraData rest

/-- Decodes a JSON text. -/
def readWith (text : String) : Except Error Value :=
  let cs := text.toList
  match readDocument halves cs with
  | .ok value => .ok value
  | .error (.integerTooLong digits) => .error (.integerTooLong digits)
  | .error (.at fault left) =>
    let offset := cs.length - left
    let (line, column) := Text.lineAndColumn cs offset
    .error (.malformed fault offset line column)

end reading

/-- Decodes a JSON text, with the replacement character for half a surrogate pair. -/
def read (text : String) : Except Error Value := readWith .replaced text

end SchemaForms.Json
