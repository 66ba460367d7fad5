import SchemaForms.Pointer
import SchemaForms.Value.Basic

/-!
# Reports

A `Violation` says where in the document a schema is not met and which part of the schema is to
blame; a `Report` lists the violations in the order in which they were found. `Report.sorted` is the
order that does not depend on how they were found: by the pointer into the schema, then by the
pointer into the document.
-/

namespace SchemaForms

/-- A place in the document and the place in the schema that it does not meet. -/
structure Violation where
  instancePath : List String
  schemaPath : List String
  deriving DecidableEq, Repr

namespace Violation

/-- The pointer into the document. -/
def instancePointer (v : Violation) : String := pointer v.instancePath

/-- The pointer into the schema. -/
def schemaPointer (v : Violation) : String := pointer v.schemaPath

/-- Whether the first violation may stand before the second in a sorted report. -/
def before (a b : Violation) : Bool :=
  decide (a.schemaPointer < b.schemaPointer) ||
    a.schemaPointer == b.schemaPointer && decide (a.instancePointer ≤ b.instancePointer)

/-- A violation as a document. -/
def toValue (v : Violation) : Value :=
  .object [("instancePath", .string v.instancePointer), ("schemaPath", .string v.schemaPointer)]

end Violation

/-- The violations of a document, as they were found. -/
structure Report where
  violations : List Violation
  deriving DecidableEq, Repr

namespace Report

/-- Whether the document meets the schema. -/
def isValid (r : Report) : Bool := r.violations.isEmpty

/-- The report in its canonical order. -/
def sorted (r : Report) : Report :=
  ⟨r.violations.mergeSort Violation.before⟩

/-- A report as a document. -/
def toValue (r : Report) : Value :=
  .object [("valid", .bool r.isValid), ("errors", .array (r.violations.map Violation.toValue))]

end Report

end SchemaForms
