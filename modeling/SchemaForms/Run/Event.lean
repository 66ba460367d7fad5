import SchemaForms.Document.Path
import SchemaForms.Schema.Basic

/-!
# What a run tells of

An `Event` is a step of a run that is worth a line in its record. Each has a source, a level, and a
message.
-/

namespace SchemaForms

/-- How much an event matters. -/
inductive Level where
  | debug
  | warning
  deriving DecidableEq, Repr

/-- The name of a level. -/
def Level.name : Level → String
  | debug => "DEBUG"
  | warning => "WARNING"

/-- A step of a run. -/
inductive Event where
  /-- A document of so many characters is about to be decoded. -/
  | loading (path : Path) (characters : Nat)
  /-- A schema of this form, with so many definitions, was found correct. -/
  | verified (form : Form) (definitions : Nat)
  /-- A validation found as many violations as were asked for. -/
  | stopped (violations : Nat)
  /-- A validation met references nested as deep as the limit. -/
  | aborted (limit : Nat)
  /-- A command could not do its work. -/
  | failed (command : String)
  deriving DecidableEq, Repr

namespace Event

/-- The part of the program that tells of an event. -/
def source : Event → String
  | loading _ _ => "jsl.contracts.load"
  | verified _ _ => "jsl.api"
  | stopped _ => "jsl.core.engine"
  | aborted _ => "jsl.core.engine"
  | failed _ => "jsl.cli"

/-- The level of an event. -/
def level : Event → Level
  | aborted _ => .warning
  | _ => .debug

/-- The message of an event. -/
def wording : Event → String
  | loading path characters =>
    "Loading " ++ path.toString ++ " (" ++ toString characters ++ " bytes)"
  | verified form definitions =>
    "Verified schema (form=" ++ form.name ++ ", definitions=" ++ toString definitions ++ ")"
  | stopped violations =>
    "Evaluation stopped after " ++ toString violations ++ " errors (max_errors)"
  | aborted limit =>
    "Evaluation aborted: ref nesting exceeded max_depth=" ++ toString limit
  | failed command => command ++ " failed"

end Event

end SchemaForms
