import SchemaForms.Number.Double

/-!
# Shortest decimals

`shortest rank` is the decimal with the fewest digits that reads back as the positive finite double
of that rank. On each grid, from one digit to seventeen, the two neighbours of the exact value are
tried; of two that read back the nearer one is taken, and the even one of two that are equally near.
Seventeen digits always suffice, so the exact expansion at the end is never needed.
-/

namespace SchemaForms.Number

/-- The number `significand * 10 ^ exponent`. -/
structure Decimal where
  significand : Nat
  exponent : Int
  deriving DecidableEq, Repr

namespace Decimal

/-- The exponent of the leading decimal digit of the double of a positive rank. -/
def leadingExponent (rank : Nat) : Int :=
  decimalLength (Double.units rank * Nat.pow 10 330 / Nat.pow 2 1074) - 331

/-- Whether the decimal reads back as the positive double of this rank. -/
def readsBack (rank : Nat) (d : Decimal) : Bool :=
  Double.ofDecimal false d.significand d.exponent = Double.ofRank false rank

/-- Of the two neighbours of `n / d` on the grid of an exponent the one that passes a test; of two
that pass, the nearer one. -/
def neighbour? (passes : Decimal → Bool) (n d : Nat) (exponent : Int) : Option Decimal :=
  let below : Decimal := ⟨n / d, exponent⟩
  let above : Decimal := ⟨n / d + 1, exponent⟩
  match passes below, passes above with
  | true, true => some ⟨roundHalfEven n d, exponent⟩
  | true, false => some below
  | false, true => some above
  | false, false => none

/-- The nearest decimal of at most `digits` digits that reads back as the double of this rank. -/
def withDigits? (rank digits : Nat) : Option Decimal :=
  let exponent := leadingExponent rank - digits + 1
  neighbour? (readsBack rank) (Double.units rank * Nat.pow 10 (-exponent).toNat)
    (Nat.pow 2 1074 * Nat.pow 10 exponent.toNat) exponent

/-- The decimal with the fewest digits that reads back as the double of this rank. -/
def shortest (rank : Nat) : Decimal :=
  let grids := (List.range 17).map (· + 1)
  (grids.findSome? (withDigits? rank)).getD ⟨Double.units rank * Nat.pow 5 1074, -1074⟩

end Decimal

end SchemaForms.Number
