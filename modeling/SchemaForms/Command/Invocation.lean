import SchemaForms.Command.Arguments
import SchemaForms.Config
import SchemaForms.Document.Path

/-!
# What the command line asks for

The program has three verbs: `verify` checks a schema, `validate` judges a document by a schema, and
`form` prints the form of a schema. `Invocation.read` makes an `Invocation` of the arguments, unless
they ask for help or for the version, or are misused.
-/

namespace SchemaForms.Command

/-- What the program can be asked to do. -/
inductive Verb where
  | verify
  | validate
  | form
  deriving DecidableEq, Repr

namespace Verb

/-- All verbs. -/
def all : List Verb := [verify, validate, form]

/-- The name of a verb. -/
def name : Verb → String
  | verify => "verify"
  | validate => "validate"
  | form => "form"

/-- The verb of a name. -/
def ofName? (name : String) : Option Verb := all.find? (·.name = name)

/-- The operands of a verb. -/
def operands : Verb → List Operand
  | validate => [⟨"schema", false⟩, ⟨"instance", false⟩]
  | _ => [⟨"schema", false⟩]

end Verb

/-- What an option is for. -/
inductive Setting where
  | help
  | version
  | verbose
  | maxErrors
  | maxDepth
  | strict
  | json
  | sort
  deriving DecidableEq, Repr

/-- The option for help. -/
def helpRule : OptionRule Setting := ⟨.help, ["-h", "--help"], false⟩

/-- The options in front of the verb. -/
def programRules : List (OptionRule Setting) :=
  [helpRule, ⟨.version, ["--version"], false⟩, ⟨.verbose, ["-v", "--verbose"], false⟩]

/-- The options of a verb. -/
def Verb.rules : Verb → List (OptionRule Setting)
  | .validate =>
    [helpRule, ⟨.maxErrors, ["--max-errors"], true⟩, ⟨.maxDepth, ["--max-depth"], true⟩,
      ⟨.strict, ["--strict"], false⟩, ⟨.json, ["--json"], false⟩, ⟨.sort, ["--sort"], false⟩]
  | _ => [helpRule]

/-- What is to be done. -/
inductive Task where
  | verify (schema : Path)
  /-- The document has no path if that was left blank. -/
  | validate (schema : Path) (document : Option Path) (overrides : Overrides) (json sort : Bool)
  | form (schema : Path)
  deriving DecidableEq, Repr

/-- The verb of a task. -/
def Task.verb : Task → Verb
  | verify _ => .verify
  | validate _ _ _ _ _ => .validate
  | form _ => .form

/-- The paths of the documents that a task needs. -/
def Task.paths : Task → List Path
  | .verify schema => [schema]
  | .form schema => [schema]
  | .validate schema document _ _ _ => schema :: document.toList

/-- What the command line asks for. -/
structure Invocation where
  /-- Whether every event is to be shown, or only warnings. -/
  verbose : Bool
  task : Option Task
  deriving DecidableEq, Repr

/-- Why there is nothing to be done; help and faults are those of the program or of a verb. -/
inductive Ending where
  | help (verb : Option Verb)
  | version
  | misuse (verb : Option Verb) (fault : Misuse)
  deriving DecidableEq, Repr

/-- The arguments of a verb as they are found. -/
structure Given where
  operands : List String := []
  overrides : Overrides := {}
  json : Bool := false
  sort : Bool := false
  deriving DecidableEq, Repr

namespace Given

/-- The limit that the value of an option gives; the value may have been left blank. -/
def limit (verb : Verb) (option : String) : (values : List String) → Except Ending GivenLimit
  | [] => .ok .blank
  | value :: _ =>
    match Number.readInteger 10 value.toList with
    | .ok n => .ok (.number n)
    | .error _ => .error (.misuse (some verb) (.notAnInteger option value))

/-- Heeds a finding among the arguments of a verb. Operands that were left blank are not kept. -/
def heed (verb : Verb) (g : Given) : Finding Setting → Except Ending Given
  | .operand _ values => .ok { g with operands := g.operands ++ values }
  | .option .help _ => .error (.help (some verb))
  | .option .maxErrors values => do
    let n ← limit verb "--max-errors" values
    .ok { g with overrides := { g.overrides with maxErrors := some n } }
  | .option .maxDepth values => do
    let n ← limit verb "--max-depth" values
    .ok { g with overrides := { g.overrides with maxDepth := some n } }
  | .option .strict _ => .ok { g with overrides := { g.overrides with strict := some true } }
  | .option .json _ => .ok { g with json := true }
  | .option .sort _ => .ok { g with sort := true }
  | .option _ _ => .ok g

/-- The task of a verb with these arguments. -/
def task (verb : Verb) (g : Given) : Task :=
  let schema := Path.ofString (g.operands.headD "")
  match verb with
  | .verify => .verify schema
  | .form => .form schema
  | .validate =>
    .validate schema ((g.operands.drop 1).head?.map Path.ofString) g.overrides g.json g.sort

end Given

/-- The task of a verb, and the words that its arguments leave over. -/
def Task.read (verb : Verb) (texts : List String) : Except Ending (Task × List String) := do
  let a := Arguments.read verb.rules verb.operands texts
  let given ← a.findings.foldlM (Given.heed verb) {}
  match a.misuse? with
  | some fault => .error (.misuse (some verb) fault)
  | none => .ok (given.task verb, a.leftOver)

namespace Invocation

/-- The operand of the program: a verb, with its arguments. -/
def operands : List Operand := [⟨"command", true⟩]

/-- The verb of a word. -/
def verb (word : String) : Except Ending Verb :=
  match Verb.ofName? word with
  | some verb => .ok verb
  | none => .error (.misuse none (.unknownChoice "command" word (Verb.all.map Verb.name)))

/-- Heeds a finding among the arguments of the program; the words that a verb leaves over are kept
beside the invocation. -/
def heed (found : Invocation × List String) :
    Finding Setting → Except Ending (Invocation × List String)
  | .option .help _ => .error (.help none)
  | .option .version _ => .error .version
  | .option .verbose _ => .ok ({ found.1 with verbose := true }, found.2)
  | .option _ _ => .ok found
  | .operand _ values => do
    let verb ← verb (values.headD "")
    let (task, leftOver) ← Task.read verb (values.drop 1)
    .ok ({ found.1 with task := some task }, found.2 ++ leftOver)

/-- Reads a command line. -/
def read (texts : List String) : Except Ending Invocation := do
  let a := Arguments.read programRules operands texts
  let (invocation, leftOver) ← a.findings.foldlM heed (⟨false, none⟩, [])
  match a.fault with
  | some fault => .error (.misuse none fault)
  | none =>
    let words := a.leftOver ++ leftOver
    if words.isEmpty then .ok invocation else .error (.misuse none (.leftOver words))

end Invocation

end SchemaForms.Command
