import SchemaForms.Command.Output
import SchemaForms.Json.Writer
import SchemaForms.Run.Validate

/-!
# Doing what the command line asks for

`Task.run` is the run of a task and `Answer.print` what its result writes. The kind of a failure
says what is written instead, and how the program ends. `perform` is the whole program.
-/

namespace SchemaForms.Command

/-! ## Tasks -/

/-- The result of a task. -/
inductive Answer where
  | correct
  | form (f : Form)
  | report (r : Report) (json : Bool)
  deriving DecidableEq, Repr

/-- The run of a task. The settings of the environment are read first. -/
def Task.run (files : Files) (env : List (String × String)) : Task → Run Answer
  | verify schema => do
    let _ ← verifySchema files schema
    return .correct
  | form schema => do
    let s ← loadSchema files schema
    return .form s.form
  | validate schema document overrides json sort => do
    let config ← Run.ofExcept (Config.ofEnvironment env) .config
    let r ← validateFile files config overrides schema document
    return .report (if sort then r.sorted else r) json

/-- A pointer in the plain report; the one to the whole is a single slash. -/
def shownPointer (p : String) : String := if p = "" then "/" else p

/-- The line of a violation in the plain report. -/
def violationLine (v : Violation) : String :=
  shownPointer v.instancePointer ++ "\t" ++ shownPointer v.schemaPointer ++ "\n"

/-- What an answer writes: to the standard output, and to the standard error. -/
def Answer.print : Answer → List String × List String
  | correct => (["OK\n"], [])
  | form f => ([f.name ++ "\n"], [])
  | report r json =>
    if json then ([Json.canonical (some 2) r.toValue], [])
    else if r.isValid then (["OK\n"], [])
    else
      (r.violations.map violationLine,
        ["FAIL: " ++ toString r.violations.length ++ " validation error(s)\n"])

/-- The exit code of an answer. -/
def Answer.exitCode : Answer → ExitCode
  | report r _ => if r.isValid then .success else .violation
  | _ => .success

/-! ## Failures -/

/-- What a failure of a run means to the one who gave the command. -/
inductive FailureKind where
  /-- Nested references, or a document, without an end. -/
  | endless
  /-- The run could not be done. -/
  | notRun
  /-- The schema is not correct. -/
  | incorrect
  /-- A setting or a text was refused. -/
  | refused
  /-- There is no message for it. -/
  | unforeseen
  deriving DecidableEq, Repr

/-- The kind of an error in a YAML text. -/
def yamlFailureKind : Yaml.Error → FailureKind
  | .malformed => .notRun
  | .node _ _ _ => .notRun
  | .notPairs _ => .notRun
  | .notADateText => .notRun
  | .endless => .endless
  | .notAnInteger _ _ => .refused
  | .integerTooLong _ => .refused
  | .tooLongToShow => .refused
  | .notADouble _ => .refused
  | .fieldOutOfRange _ => .refused
  | .shortPair => .refused
  | .noSuchCharacter number => if number < Nat.pow 2 31 then .refused else .unforeseen
  | .tooManyParts => .unforeseen
  | .emptyNumber => .unforeseen
  | .notABoolean _ => .unforeseen
  | .notADate _ => .unforeseen

/-- The kind of a failure. -/
def failureKind : Failure → FailureKind
  | .notFound _ => .notRun
  | .blankPath => .notRun
  | .undecodable _ => .refused
  | .json (.malformed _ _ _ _) => .notRun
  | .json (.integerTooLong _) => .refused
  | .yaml _ error => yamlFailureKind error
  | .schema (.malformed (.misfit _ _)) => .notRun
  | .schema (.malformed .tooLongToShow) => .refused
  | .schema (.incorrect _) => .incorrect
  | .config .blankLimit => .notRun
  | .config _ => .refused
  | .aborted (.tooDeep _) => .notRun
  | .aborted .stackExhausted => .endless
  | .aborted (.fault .noDefinitions) => .notRun
  | .aborted (.fault (.notJson _)) => .notRun
  | .aborted (.fault (.missingDefinition _)) => .unforeseen
  | .aborted (.fault (.unknownType _)) => .refused

/-- What a failed task writes to the standard error behind its events, and how it ends. -/
def conclude (verb : Verb) (f : Failure) : List Piece × Conclusion :=
  let error (message : String) : Piece := .text ("ERROR: " ++ message ++ "\n")
  match failureKind f with
  | .endless => ([.event (.failed verb.name), error (Abort.wording .stackExhausted)], .exit .error)
  | .notRun => ([.event (.failed verb.name), error f.wording], .exit .error)
  | .incorrect => ([.text ("FAIL: " ++ f.wording ++ "\n")], .exit .violation)
  | .refused => ([error f.wording], .exit .error)
  | .unforeseen => ([], .crash f)

/-! ## The program -/

/-- Whether an event is shown. -/
def isShown (verbose : Bool) (e : Event) : Bool := verbose || e.level = .warning

/-- The pieces without the events that are not shown. -/
def shown (verbose : Bool) (pieces : List Piece) : List Piece :=
  pieces.filter fun
    | .event e => isShown verbose e
    | _ => true

/-- What the run of a task writes. -/
def transcript (verbose : Bool) (verb : Verb) (run : Run Answer) : Transcript :=
  let events := run.events.map .event
  match run.result with
  | .ok answer =>
    let (out, err) := answer.print
    ⟨out.map .text, shown verbose events ++ err.map .text, .exit answer.exitCode⟩
  | .error f =>
    let (pieces, conclusion) := conclude verb f
    ⟨[], shown verbose (events ++ pieces), conclusion⟩

/-- The version line. -/
def versionLine : String := "jsl 0.1.0\n"

/-- The name of the program, with a verb behind it if a message is about one. -/
def programName (verb : Option Verb) : String :=
  match verb with
  | none => "jsl"
  | some verb => "jsl " ++ verb.name

/-- What is written when there is nothing to be done. -/
def Ending.transcript : Ending → Transcript
  | help verb => ⟨[.page (.help verb)], [], .exit .success⟩
  | version => ⟨[.text versionLine], [], .exit .success⟩
  | misuse verb fault =>
    let line := programName verb ++ ": error: " ++ fault.wording ++ "\n"
    ⟨[], [.page (.usage verb), .text line], .exit .error⟩

/-- Does what a command line asks for; one that asks for nothing is answered by the help page. -/
def perform (files : Files) (env : List (String × String)) (arguments : List String) : Transcript :=
  match Invocation.read arguments with
  | .error ending => ending.transcript
  | .ok ⟨_, none⟩ => ⟨[], [.page (.help none)], .exit .error⟩
  | .ok ⟨verbose, some task⟩ => transcript verbose task.verb (task.run files env)

end SchemaForms.Command
