/-!
# Rounding quotients

`roundHalfEven n d` is the whole number nearest to `n / d`; a quotient half way between two whole
numbers goes to the even one.
-/

namespace SchemaForms.Number

/-- The whole number nearest to `n / d`, a half going to the even neighbour. -/
def roundHalfEven (n d : Nat) : Nat :=
  let q := n / d
  let r := n % d
  if 2 * r < d then q
  else if d < 2 * r then q + 1
  else q + q % 2

/-- The number of decimal digits of `n`; zero has one. -/
def decimalLength (n : Nat) : Nat :=
  (Nat.toDigits 10 n).length

end SchemaForms.Number
