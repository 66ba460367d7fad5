import SchemaForms.Document.Load
import SchemaForms.Schema.Check

/-!
# Validating documents in files

`verifySchema` loads a schema and checks it, `judge` is a validation that tells how it ended, and
`validateFile` validates the document at one path by the schema at another. The document is loaded
first, and overrides are applied once the schema is known to be correct.
-/

namespace SchemaForms

/-- The schema at a path, which has to be correct. -/
def verifySchema (files : Files) (path : Path) : Run Schema := do
  let s ← loadSchema files path
  Run.ofExcept s.check fun fault => .schema (.incorrect fault)
  Run.tell (.verified s.form (s.definitions.getD []).length)
  return s

/-- What a validation tells of its end. -/
def Trace.events (t : Trace) (config : Config) : List Event :=
  match t.halt with
  | some .errorLimit => [.stopped t.violations.length]
  | some .tooDeep => [.aborted config.maxDepth]
  | _ => []

/-- Judges a document by a root schema. -/
def judge (config : Config) (root : Schema) (document : Value) : Run Report :=
  let t := trace stackLimit config root document
  ⟨t.events config, (t.outcome config).mapError .aborted⟩

/-- Judges a document by the schema at a path. -/
def validateDocument (files : Files) (config : Config) (overrides : Overrides) (schema : Path)
    (document : Value) : Run Report := do
  let root ← verifySchema files schema
  let config ← Run.ofExcept (config.override overrides) .config
  judge config root document

/-- Judges the document at a path, which may have been left blank, by the schema at another. -/
def validateFile (files : Files) (config : Config) (overrides : Overrides) (schema : Path)
    (document : Option Path) : Run Report := do
  match document with
  | none => Run.fail .blankPath
  | some path =>
    let document ← loadDocument files path
    validateDocument files config overrides schema document

end SchemaForms
