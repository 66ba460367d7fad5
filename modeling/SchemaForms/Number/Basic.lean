import SchemaForms.Number.Double

/-!
# Numbers

A `Number` is written either as an integer of any size or as a double. Both have an exact value;
`Number.toInt?` is that value where it is whole.
-/

namespace SchemaForms

open SchemaForms.Number (Double)

/-- A number of a document. -/
inductive Number where
  | int (value : Int)
  | double (value : Double)
  deriving DecidableEq

namespace Number

/-- The exact value, if it is whole: an infinity and not-a-number have none. -/
def toInt? : Number → Option Int
  | int value => some value
  | double value => value.toInt?

end Number

end SchemaForms
