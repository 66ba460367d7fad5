import SchemaForms.Number.Rounding

/-!
# Binary floating-point numbers of 64 bits

A `Double` is an IEEE 754 number of the format binary64, held exactly: the finite ones of a sign
are numbered in rising order by their `rank`, and a rank stands for a whole number of units of
2^-1074, the least positive number of the format. `ofRatio` is the only place that rounds: to the
nearest number, a tie going to the even rank, and to infinity from half a step above the greatest
finite number on.
-/

namespace SchemaForms.Number

/-- How many finite numbers of one sign there are, zero included: 2047 binades of 2^52 each. -/
def rankCount : Nat := 2047 * Nat.pow 2 52

/-- A binary64 number. -/
inductive Double where
  /-- Not a number. -/
  | nan
  /-- An infinity. -/
  | infinite (negative : Bool)
  /-- The finite number of this sign whose magnitude comes at this rank, from zero up. -/
  | finite (negative : Bool) (rank : Fin rankCount)
  deriving DecidableEq

namespace Double

/-- The magnitude of a rank in units of 2^-1074: the first binade holds the multiples of the unit,
and every later one has a step twice as wide as the one before. -/
def units (rank : Nat) : Nat :=
  let binade := rank / Nat.pow 2 52
  let fraction := rank % Nat.pow 2 52
  if binade = 0 then fraction else (Nat.pow 2 52 + fraction) * Nat.pow 2 (binade - 1)

/-- The number at a rank, infinite from `rankCount` on. -/
def ofRank (negative : Bool) (rank : Nat) : Double :=
  if h : rank < rankCount then finite negative ⟨rank, h⟩ else infinite negative

/-- Zero of a sign. -/
def zero (negative : Bool) : Double := finite negative ⟨0, by decide⟩

/-- The rank nearest to `n / d`, before the limit of the format is applied. -/
def nearestRank (n d : Nat) : Nat :=
  let whole := n * Nat.pow 2 1074 / d
  let shift := Nat.log2 whole - 52
  shift * Nat.pow 2 52 + roundHalfEven (n * Nat.pow 2 1074) (d * Nat.pow 2 shift)

/-- The number nearest to `n / d`. -/
def ofRatio (negative : Bool) (n d : Nat) : Double :=
  ofRank negative (nearestRank n d)

/-- The number nearest to a whole number. -/
def ofInt (n : Int) : Double :=
  ofRatio (n < 0) n.natAbs 1

/-- The number nearest to `significand * 10 ^ exponent`. An exponent far out of the format's reach
is settled by the order of magnitude alone. -/
def ofDecimal (negative : Bool) (significand : Nat) (exponent : Int) : Double :=
  let magnitude := decimalLength significand + exponent
  if significand = 0 ∨ magnitude < -330 then zero negative
  else if 310 < magnitude then infinite negative
  else if 0 ≤ exponent then ofRatio negative (significand * Nat.pow 10 exponent.toNat) 1
  else ofRatio negative significand (Nat.pow 10 (-exponent).toNat)

/-- The value, if it is a whole number. -/
def toInt? : Double → Option Int
  | finite negative rank =>
    let magnitude := units rank
    if magnitude % Nat.pow 2 1074 = 0 then
      let whole : Int := magnitude / Nat.pow 2 1074
      some (if negative then -whole else whole)
    else none
  | _ => none

/-- The number with the other sign; not-a-number stays. -/
def neg : Double → Double
  | nan => nan
  | infinite negative => infinite !negative
  | finite negative rank => finite (!negative) rank

/-- Whether the number is neither an infinity nor not-a-number. -/
def isFinite : Double → Bool
  | finite _ _ => true
  | _ => false

/-- Whether the number is a zero of either sign. -/
def isZero : Double → Bool
  | finite _ rank => rank.val = 0
  | _ => false

/-- The sign; not-a-number counts as positive. -/
def isNegative : Double → Bool
  | nan => false
  | infinite negative => negative
  | finite negative _ => negative

/-- The product, rounded once. -/
def mul : Double → Double → Double
  | nan, _ => nan
  | _, nan => nan
  | infinite a, y => if y.isZero then nan else infinite (a != y.isNegative)
  | x, infinite b => if x.isZero then nan else infinite (x.isNegative != b)
  | finite a x, finite b y => ofRatio (a != b) (units x * units y) (Nat.pow 2 2148)

/-- The sum, rounded once. A sum that is zero is negative only if both terms are. -/
def add : Double → Double → Double
  | nan, _ => nan
  | _, nan => nan
  | infinite a, infinite b => if a = b then infinite a else nan
  | infinite a, finite _ _ => infinite a
  | finite _ _, infinite b => infinite b
  | finite a x, finite b y =>
    let signed (negative : Bool) (rank : Nat) : Int := if negative then -units rank else units rank
    let sum := signed a x + signed b y
    if sum = 0 then zero (a && b) else ofRatio (sum < 0) sum.natAbs (Nat.pow 2 1074)

end Double

end SchemaForms.Number
