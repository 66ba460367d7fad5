import SchemaForms.Number.Shortest

/-!
# Writing doubles

`Layout.write` lays out the shortest digits of a double. Between the two exponents of the layout
the number is written out in full with at least one decimal place; outside it is written with one
digit before the point and an exponent of at least two digits.
-/

namespace SchemaForms.Number

/-- The decisions of a text format for doubles. -/
structure Layout where
  /-- The least exponent of the leading digit that is still written out in full. -/
  leastPlain : Int
  /-- The first exponent that is written with an exponent part again. -/
  firstLarge : Int
  /-- The word for positive infinity. -/
  infinity : String
  /-- The word for not-a-number. -/
  notANumber : String

namespace Layout

/-- Doubles inside a displayed value. -/
def displayed : Layout := ⟨-4, 16, "inf", "nan"⟩

/-- Doubles inside a JSON text, with the words that readers of JSON know. -/
def json : Layout := ⟨-4, 16, "Infinity", "NaN"⟩

/-- The digits of a significand without the zeros at its end. -/
def significantDigits (significand : Nat) : List Char :=
  ((Nat.toDigits 10 significand).reverse.dropWhile (· = '0')).reverse

/-- An exponent part: the sign, then at least two digits. -/
def exponentPart (exponent : Int) : List Char :=
  let digits := Nat.toDigits 10 exponent.natAbs
  'e' :: (if exponent < 0 then '-' else '+') ::
    (List.replicate (2 - digits.length) '0' ++ digits)

/-- Digits written out in full, the first of them at `exponent`. -/
def plain (digits : List Char) (exponent : Int) : List Char :=
  if exponent < 0 then
    '0' :: '.' :: (List.replicate (-exponent - 1).toNat '0' ++ digits)
  else
    let whole := exponent.toNat + 1
    let padded := digits ++ List.replicate (whole - digits.length) '0'
    let places := padded.drop whole
    padded.take whole ++ '.' :: (if places.isEmpty then ['0'] else places)

/-- Digits with the point after the first one, and the exponent of that one. -/
def scientific (digits : List Char) (exponent : Int) : List Char :=
  match digits with
  | [] => exponentPart exponent
  | [d] => d :: exponentPart exponent
  | d :: rest => d :: '.' :: (rest ++ exponentPart exponent)

/-- A magnitude in this layout. -/
def magnitude (layout : Layout) (rank : Nat) : List Char :=
  if rank = 0 then ['0', '.', '0']
  else
    let decimal := Decimal.shortest rank
    let exponent := decimalLength decimal.significand - 1 + decimal.exponent
    let digits := significantDigits decimal.significand
    if layout.leastPlain ≤ exponent ∧ exponent < layout.firstLarge then plain digits exponent
    else scientific digits exponent

/-- A double in this layout. -/
def write (layout : Layout) : Double → String
  | .nan => layout.notANumber
  | .infinite negative => (if negative then "-" else "") ++ layout.infinity
  | .finite negative rank =>
    (if negative then "-" else "") ++ String.ofList (layout.magnitude rank)

end Layout

end SchemaForms.Number
