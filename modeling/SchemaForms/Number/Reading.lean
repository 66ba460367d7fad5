import SchemaForms.Number.Double
import SchemaForms.Text.Blank
import SchemaForms.Text.Digit
import SchemaForms.Text.Hex

/-!
# Reading numbers from free text

`readInteger` reads a whole number in a base: white space around it, a sign, the mark of the base
(`0x`, `0o`, `0b`), and digits of any script, with single underscores between digits. `readDouble?`
reads a decimal, or a word for infinity or not-a-number.
-/

namespace SchemaForms.Number

open SchemaForms.Text

/-- The most digits that an integer in a base other than a power of two may have. -/
def digitLimit : Nat := 4300

/-- Why a text is no integer. -/
inductive IntegerFault where
  | malformed
  | tooLong (digits : Nat)
  deriving DecidableEq, Repr

/-- What is said of an integer with too many digits. -/
def tooManyDigits (digits : Nat) : String :=
  "Exceeds the limit (" ++ toString digitLimit ++
    " digits) for integer string conversion: value has " ++ toString digits ++
    " digits; use sys.set_int_max_str_digits() to increase the limit"

/-- What is said of an integer that is too long to be shown. -/
def tooLongToShow : String :=
  "Exceeds the limit (" ++ toString digitLimit ++
    " digits) for integer string conversion; use sys.set_int_max_str_digits() to increase the limit"

/-- White space around a number: all of it but the four information separators. -/
def isNumberBlank (c : Char) : Bool :=
  isBlank c && !(0x1C ≤ c.toNat && c.toNat ≤ 0x1F)

/-- A text without the blanks around a number. -/
def trimNumber (cs : List Char) : List Char :=
  ((cs.dropWhile isNumberBlank).reverse.dropWhile isNumberBlank).reverse

/-- The sign in front of a text, and the rest. -/
def takeSign : List Char → Bool × List Char
  | '-' :: rest => (true, rest)
  | '+' :: rest => (false, rest)
  | rest => (false, rest)

/-- The value of a digit of a base: a letter, or a decimal digit of any script. -/
def baseDigit? (base : Nat) (c : Char) : Option Nat :=
  ((hexValue? c).or (digitValue? c)).filter (· < base)

/-- The number written by digits of a base; other characters count as nothing. -/
def digitsValue (base : Nat) (cs : List Char) : Nat :=
  cs.foldl (fun n c => match baseDigit? base c with
    | some d => base * n + d
    | none => n) 0

/-- Whether digits are separated by single underscores, each between two digits. -/
def wellSeparated : (digitBefore : Bool) → List Char → Bool
  | digitBefore, [] => digitBefore
  | digitBefore, '_' :: rest => digitBefore && wellSeparated false rest
  | _, _ :: rest => wellSeparated true rest

/-- The letter that marks a base after a zero. -/
def baseMark? (base : Nat) : Option Char :=
  if base = 16 then some 'x' else if base = 8 then some 'o' else if base = 2 then some 'b' else none

/-- The text after the mark of the base, and after one underscore behind that mark. -/
def dropBaseMark (base : Nat) : List Char → List Char
  | '0' :: letter :: rest =>
    if baseMark? base = some letter.toLower then
      match rest with
      | '_' :: rest => rest
      | _ => rest
    else '0' :: letter :: rest
  | cs => cs

/-- The integer that a text writes in a base. -/
def readInteger (base : Nat) (cs : List Char) : Except IntegerFault Int :=
  let (negative, body) := takeSign (trimNumber cs)
  let body := dropBaseMark base body
  let belongs (c : Char) : Bool := (baseDigit? base c).isSome || c = '_'
  let run := body.takeWhile belongs
  let digits := run.filter (· ≠ '_')
  if !wellSeparated false run then .error .malformed
  else if base = 10 ∧ digitLimit < digits.length then .error (.tooLong digits.length)
  else if run.length < body.length then .error .malformed
  else
    let value : Int := digitsValue base run
    .ok (if negative then -value else value)

/-- The digits in front of a text, and the rest. -/
def takeDigits (cs : List Char) : List Char × List Char :=
  let isDigit (c : Char) : Bool := (digitValue? c).isSome
  (cs.takeWhile isDigit, cs.dropWhile isDigit)

/-- The exponent that a text writes after its digits: `some 0` for none, `none` for junk. -/
def readExponent? : List Char → Option Int
  | [] => some 0
  | mark :: rest =>
    let (negative, rest) := takeSign rest
    let (digits, rest) := takeDigits rest
    if mark.toLower = 'e' ∧ !digits.isEmpty ∧ rest.isEmpty then
      let value : Int := digitsValue 10 digits
      some (if negative then -value else value)
    else none

/-- The double that a text writes. -/
def readDouble? (cs : List Char) : Option Double :=
  let (negative, body) := takeSign (trimNumber cs)
  let word := String.ofList (body.map Char.toLower)
  if word = "inf" ∨ word = "infinity" then some (.infinite negative)
  else if word = "nan" then some .nan
  else
    let (whole, rest) := takeDigits body
    let (places, rest) := match rest with
      | '.' :: rest => takeDigits rest
      | _ => ([], rest)
    if whole.isEmpty && places.isEmpty then none
    else (readExponent? rest).map fun exponent =>
      Double.ofDecimal negative (digitsValue 10 (whole ++ places)) (exponent - places.length)

end SchemaForms.Number
