import SchemaForms.ScalarType
import SchemaForms.Timestamp
import SchemaForms.Value.Basic

/-!
# Which values a scalar type admits

A number is judged by its exact value, whichever way it is written: `ScalarType.admits` compares
integers without rounding, and an infinity or not-a-number is in no integer type.
-/

namespace SchemaForms

/-- Whether the exact value of a number is whole and within inclusive bounds. -/
def Number.inRange (n : Number) (bounds : Int × Int) : Bool :=
  match n.toInt? with
  | some value => decide (bounds.1 ≤ value ∧ value ≤ bounds.2)
  | none => false

/-- Whether a value is of a scalar type. -/
def ScalarType.admits (t : ScalarType) (v : Value) : Bool :=
  match t.range?, v with
  | some bounds, .number n => n.inRange bounds
  | some _, _ => false
  | none, .bool _ => t = .boolean
  | none, .number _ => t.isFloating
  | none, .string text => t = .string || t = .timestamp && isTimestamp text
  | none, _ => false

end SchemaForms
