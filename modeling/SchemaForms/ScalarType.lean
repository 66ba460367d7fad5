/-!
# Scalar types

The fourteen types that a schema can name. The eight sized integer types have inclusive bounds;
three types admit every number.
-/

namespace SchemaForms

/-- A type of scalar values. -/
inductive ScalarType where
  | boolean
  | number
  | float32
  | float64
  | int8
  | uint8
  | int16
  | uint16
  | int32
  | uint32
  | int64
  | uint64
  | string
  | timestamp
  deriving DecidableEq, Repr

namespace ScalarType

/-- All types, in their usual order. -/
def all : List ScalarType :=
  [boolean, number, float32, float64, int8, uint8, int16, uint16, int32, uint32, int64, uint64,
   string, timestamp]

/-- The name of a type inside a schema. -/
def name : ScalarType → String
  | boolean => "boolean"
  | number => "number"
  | float32 => "float32"
  | float64 => "float64"
  | int8 => "int8"
  | uint8 => "uint8"
  | int16 => "int16"
  | uint16 => "uint16"
  | int32 => "int32"
  | uint32 => "uint32"
  | int64 => "int64"
  | uint64 => "uint64"
  | string => "string"
  | timestamp => "timestamp"

/-- The type of a name. -/
def ofName? (name : String) : Option ScalarType :=
  all.find? (·.name = name)

/-- The bounds of a signed integer type of this many bits. -/
def signedRange (bits : Nat) : Int × Int :=
  (-(Nat.pow 2 (bits - 1) : Int), (Nat.pow 2 (bits - 1) : Int) - 1)

/-- The bounds of an unsigned integer type of this many bits. -/
def unsignedRange (bits : Nat) : Int × Int := (0, (Nat.pow 2 bits : Int) - 1)

/-- The inclusive bounds of a sized integer type. -/
def range? : ScalarType → Option (Int × Int)
  | int8 => some (signedRange 8)
  | uint8 => some (unsignedRange 8)
  | int16 => some (signedRange 16)
  | uint16 => some (unsignedRange 16)
  | int32 => some (signedRange 32)
  | uint32 => some (unsignedRange 32)
  | int64 => some (signedRange 64)
  | uint64 => some (unsignedRange 64)
  | _ => none

/-- Whether the type admits every number. -/
def isFloating : ScalarType → Bool
  | number => true
  | float32 => true
  | float64 => true
  | _ => false

end ScalarType

end SchemaForms
