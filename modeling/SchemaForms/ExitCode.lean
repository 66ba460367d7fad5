/-!
# Exit codes

What the command line says of a run by its exit code alone.
-/

namespace SchemaForms

/-- The outcome of a run of the command line. -/
inductive ExitCode where
  /-- The schema is correct, the document meets it, or the form was printed. -/
  | success
  /-- The schema is incorrect, or the document does not meet it. -/
  | violation
  /-- The run could not come to an answer. -/
  | error
  deriving DecidableEq, Repr

namespace ExitCode

/-- All codes, in rising order. -/
def all : List ExitCode := [success, violation, error]

/-- The number of a code. -/
def number : ExitCode → Nat
  | success => 0
  | violation => 1
  | error => 2

/-- The name of a code. -/
def name : ExitCode → String
  | success => "SUCCESS"
  | violation => "VIOLATION"
  | error => "ERROR"

/-- The code of a number. -/
def ofNumber? (n : Int) : Option ExitCode :=
  all.find? fun code => (code.number : Int) = n

end ExitCode

end SchemaForms
