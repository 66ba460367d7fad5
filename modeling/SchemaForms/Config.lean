import SchemaForms.Number.Reading
import SchemaForms.Text.Quoted

/-!
# Configuration

How far a validation goes: at most so many violations, at most so many nested references, and
whether undeclared members are violations. A limit of zero is no limit. A configuration is made from
given limits, from environment variables, or from another one with some settings overridden; a
negative or blank limit is refused, and that of the violations is looked at first.
-/

namespace SchemaForms

open SchemaForms.Text (quoted trim)

/-- The settings of a validation. -/
structure Config where
  maxErrors : Nat := 0
  maxDepth : Nat := 0
  strict : Bool := false
  deriving DecidableEq, Repr

/-- Why settings are refused. -/
inductive ConfigFault where
  | negativeLimit (setting : String) (value : Int)
  /-- A limit without a number. -/
  | blankLimit
  | notAnInteger (name text : String)
  deriving DecidableEq, Repr

namespace ConfigFault

/-- The wording of a refusal. -/
def wording : ConfigFault → String
  | negativeLimit setting value => setting ++ " must be >= 0, got " ++ toString value
  | blankLimit => "'<' not supported between instances of 'list' and 'int'"
  | notAnInteger name text => name ++ " must be an integer, got " ++ quoted text

end ConfigFault

/-- A limit as it is given: a number, or no number where there should be one. -/
inductive GivenLimit where
  | number (value : Int)
  | blank
  deriving DecidableEq, Repr

/-- Settings that may be given one by one. -/
structure Overrides where
  maxErrors : Option GivenLimit := none
  maxDepth : Option GivenLimit := none
  strict : Option Bool := none
  deriving DecidableEq, Repr

namespace Config

/-- A limit, which must not be negative. -/
def limit (setting : String) : GivenLimit → Except ConfigFault Nat
  | .number value =>
    if value < 0 then .error (.negativeLimit setting value) else .ok value.toNat
  | .blank => .error .blankLimit

/-- The configuration of these settings. -/
def make (maxErrors maxDepth : GivenLimit) (strict : Bool) : Except ConfigFault Config := do
  let errors ← limit "max_errors" maxErrors
  let depth ← limit "max_depth" maxDepth
  .ok ⟨errors, depth, strict⟩

/-- The configuration with some settings overridden. -/
def override (base : Config) (o : Overrides) : Except ConfigFault Config :=
  make (o.maxErrors.getD (.number base.maxErrors)) (o.maxDepth.getD (.number base.maxDepth))
    (o.strict.getD base.strict)

/-- The number in an environment variable: zero if it is unset or blank. -/
def limitVariable (env : List (String × String)) (name : String) : Except ConfigFault Int :=
  let text := trim ((env.lookup name).getD "")
  if text = "" then .ok 0
  else match Number.readInteger 10 text.toList with
    | .ok value => .ok value
    | .error _ => .error (.notAnInteger name text)

/-- The words that switch a setting on. -/
def switchWords : List String := ["1", "true", "yes", "on"]

/-- The switch in an environment variable. None of the words has a letter that is the lower case of
anything outside ASCII. -/
def switchVariable (env : List (String × String)) (name : String) : Bool :=
  switchWords.contains
    (String.ofList ((trim ((env.lookup name).getD "")).toList.map Char.toLower))

/-- The configuration that the environment gives. -/
def ofEnvironment (env : List (String × String)) : Except ConfigFault Config := do
  let maxErrors ← limitVariable env "JSL_MAX_ERRORS"
  let maxDepth ← limitVariable env "JSL_MAX_DEPTH"
  make (.number maxErrors) (.number maxDepth) (switchVariable env "JSL_STRICT")

end Config

end SchemaForms
