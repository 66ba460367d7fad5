import SchemaForms.Schema.Check
import SchemaForms.Schema.Shape

/-!
# Schemas that documents may be judged by

`Schema.verified` decodes a document and checks the schema; what it returns is correct.
-/

namespace SchemaForms

/-- Why a document gives no correct schema. -/
inductive SchemaError where
  /-- It has not the wire shape. -/
  | malformed (fault : DecodeFault)
  /-- It has the wire shape, and the schema is not correct. -/
  | incorrect (fault : SchemaFault)
  deriving DecidableEq, Repr

/-- The wording of an error. -/
def SchemaError.wording : SchemaError → String
  | malformed fault => fault.wording
  | incorrect fault => fault.wording

/-- The correct schema that a document describes. -/
def Schema.verified (v : Value) : Except SchemaError Schema := do
  let s ← (Schema.decode v).mapError .malformed
  s.check.mapError .incorrect
  .ok s

end SchemaForms
