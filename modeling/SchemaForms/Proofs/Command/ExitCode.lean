import SchemaForms.Command.Perform
import SchemaForms.Proofs.Run
import SchemaForms.Proofs.Validation.Faults

/-!
# What an exit code says

`Task.reply` is what the library answers to the task of a command line, and `verdict` the exit code
that its answer asks for. The program ends with that code, unless the answer is a failure for which
it has no message (`conclusion_perform`): a YAML text with a scalar that does not say what its tag
promises, told by an error of a kind that the program does not know. What the program is asked to
print has no part in it.

A JSON or YAML text can write half a surrogate pair, which the program holds and cannot print. What
stands for one is left open by `Files.halves`, and it is said what holds of the runs that come to
the same whatever stands for one (`Task.IsWhole`).
-/

namespace SchemaForms

/-! ## Failures of a run -/

/-- A failure to load a document. -/
inductive Failure.OfDocument : Failure → Prop
  | notFound (path : Path) : OfDocument (.notFound path)
  | undecodable (fault : Text.Utf8Fault) : OfDocument (.undecodable fault)
  | json (error : Json.Error) : OfDocument (.json error)
  | yaml (text : String) (error : Yaml.Error) : OfDocument (.yaml text error)

/-- A failure to load a schema. -/
inductive Failure.OfSchema : Failure → Prop
  | document {f : Failure} (h : f.OfDocument) : OfSchema f
  | malformed (fault : DecodeFault) : OfSchema (.schema (.malformed fault))

/-- A failure that a run may have, if it is told the schema by a path. -/
inductive Failure.OfRun : Failure → Prop
  | schema {f : Failure} (h : f.OfSchema) : OfRun f
  | incorrect (fault : SchemaFault) : OfRun (.schema (.incorrect fault))
  | blankPath : OfRun .blankPath
  | config (fault : ConfigFault) : OfRun (.config fault)
  | aborted {cause : Abort} (h : cause.Foreseen) : OfRun (.aborted cause)

section failures
variable {files : Files} {path : Path} {f : Failure}

theorem ofDocument_of_loadDocument (h : (loadDocument files path).result = .error f) :
    f.OfDocument := by
  unfold loadDocument at h
  split at h
  · cases h
    exact .notFound path
  · rcases Run.bind_result_eq_error_iff.mp h with htext | ⟨text, -, h⟩
    · obtain ⟨fault, -, rfl⟩ := Run.ofExcept_result_eq_error_iff.mp htext
      exact .undecodable fault
    · rcases Run.bind_result_eq_error_iff.mp h with htell | ⟨_, -, h⟩
      · cases htell
      · split_ifs at h
        · obtain ⟨error, -, rfl⟩ := Run.ofExcept_result_eq_error_iff.mp h
          exact .yaml text error
        · obtain ⟨error, -, rfl⟩ := Run.ofExcept_result_eq_error_iff.mp h
          exact .json error

theorem ofSchema_of_loadSchema (h : (loadSchema files path).result = .error f) : f.OfSchema := by
  rcases Run.bind_result_eq_error_iff.mp h with hload | ⟨document, -, h⟩
  · exact .document (ofDocument_of_loadDocument hload)
  · obtain ⟨fault, -, rfl⟩ := Run.ofExcept_result_eq_error_iff.mp h
    exact .malformed fault

theorem ofRun_of_verifySchema (h : (verifySchema files path).result = .error f) : f.OfRun := by
  rcases Run.bind_result_eq_error_iff.mp h with hload | ⟨s, -, h⟩
  · exact .schema (ofSchema_of_loadSchema hload)
  · rcases Run.bind_result_eq_error_iff.mp h with hcheck | ⟨_, -, h⟩
    · obtain ⟨fault, -, rfl⟩ := Run.ofExcept_result_eq_error_iff.mp hcheck
      exact .incorrect fault
    · rcases Run.bind_result_eq_error_iff.mp h with htell | ⟨_, -, h⟩
      · cases htell
      · cases h

/-- A schema that is returned passes its check. -/
theorem check_of_verifySchema {s : Schema} (h : (verifySchema files path).result = .ok s) :
    s.check = .ok () := by
  obtain ⟨s', -, h⟩ := Run.bind_result_eq_ok_iff.mp h
  obtain ⟨_, hcheck, h⟩ := Run.bind_result_eq_ok_iff.mp h
  obtain ⟨_, -, h⟩ := Run.bind_result_eq_ok_iff.mp h
  cases h
  exact Run.ofExcept_result_eq_ok_iff.mp hcheck

theorem ofRun_of_validateFile {config : Config} {overrides : Overrides} {document : Option Path}
    (h : (validateFile files config overrides path document).result = .error f) : f.OfRun := by
  unfold validateFile at h
  split at h
  · cases h
    exact .blankPath
  · rcases Run.bind_result_eq_error_iff.mp h with hload | ⟨v, -, h⟩
    · exact .schema (.document (ofDocument_of_loadDocument hload))
    · rcases Run.bind_result_eq_error_iff.mp h with hverify | ⟨root, hroot, h⟩
      · exact ofRun_of_verifySchema hverify
      · rcases Run.bind_result_eq_error_iff.mp h with hconfig | ⟨config, -, h⟩
        · obtain ⟨fault, -, rfl⟩ := Run.ofExcept_result_eq_error_iff.mp hconfig
          exact .config fault
        · obtain ⟨abort, habort, rfl⟩ := Run.ofExcept_result_eq_error_iff.mp h
          exact .aborted (abort_of_check (check_of_verifySchema hroot) habort)

end failures

/-! ## Failures without a message -/

/-- An error in a YAML text that the program has no message for. -/
inductive Yaml.Error.Unforeseen : Yaml.Error → Prop
  | notABoolean (text : String) : Unforeseen (.notABoolean text)
  | emptyNumber : Unforeseen .emptyNumber
  | notADate (text : String) : Unforeseen (.notADate text)
  | tooManyParts : Unforeseen .tooManyParts
  | noSuchCharacter {number : Nat} (h : Nat.pow 2 31 ≤ number) :
      Unforeseen (.noSuchCharacter number)

/-- A failure that the program has no message for. -/
def Failure.Unforeseen (f : Failure) : Prop := ∃ text error, f = .yaml text error ∧ error.Unforeseen

namespace Command

/-- What the library answers: the schema of a task that asks for one, or the report of a document. -/
inductive Reply where
  | schema (s : Schema)
  | report (r : Report)

/-- What the library answers to a task, with the settings of the environment. -/
def Task.reply (files : Files) (env : List (String × String)) : Task → Except Failure Reply
  | verify schema => (verifySchema files schema).result.map .schema
  | form schema => (loadSchema files schema).result.map .schema
  | validate schema document overrides _ _ => do
    let config ← (Config.ofEnvironment env).mapError .config
    (validateFile files config overrides schema document).result.map .report

/-- The exit code that an answer asks for. -/
def verdict : Except Failure Reply → ExitCode
  | .ok (.schema _) => .success
  | .ok (.report r) => if r.violations = [] then .success else .violation
  | .error (.schema (.incorrect _)) => .violation
  | .error _ => .error

variable {files : Files} {env : List (String × String)} {task : Task} {f : Failure}

theorem yamlFailureKind_eq_unforeseen_iff {error : Yaml.Error} :
    yamlFailureKind error = .unforeseen ↔ error.Unforeseen := by
  cases error with
  | noSuchCharacter number =>
    rw [yamlFailureKind]
    split_ifs with h
    · refine iff_of_false (by simp) fun hu => ?_
      cases hu with
      | noSuchCharacter h' => omega
    · exact iff_of_true rfl (.noSuchCharacter (Nat.le_of_not_lt h))
  | notABoolean text => exact iff_of_true rfl (.notABoolean text)
  | emptyNumber => exact iff_of_true rfl .emptyNumber
  | notADate text => exact iff_of_true rfl (.notADate text)
  | tooManyParts => exact iff_of_true rfl .tooManyParts
  | _ => exact iff_of_false (by simp [yamlFailureKind]) nofun

theorem yamlFailureKind_ne_incorrect (error : Yaml.Error) : yamlFailureKind error ≠ .incorrect := by
  cases error with
  | noSuchCharacter number =>
    rw [yamlFailureKind]
    split_ifs <;> simp
  | _ => simp [yamlFailureKind]

theorem failureKind_eq_unforeseen_iff (hf : f.OfRun) :
    failureKind f = .unforeseen ↔ f.Unforeseen := by
  have hnot {f : Failure} (hkind : failureKind f ≠ .unforeseen)
      (hyaml : ∀ text error, f ≠ .yaml text error) :
      failureKind f = .unforeseen ↔ f.Unforeseen := by
    refine iff_of_false hkind ?_
    rintro ⟨text, error, rfl, -⟩
    exact hyaml text error rfl
  cases hf with
  | schema h =>
    cases h with
    | document h =>
      cases h with
      | notFound path => exact hnot (by simp [failureKind]) (by simp)
      | undecodable fault => exact hnot (by simp [failureKind]) (by simp)
      | json error => exact hnot (by cases error <;> simp [failureKind]) (by simp)
      | yaml text error =>
        refine yamlFailureKind_eq_unforeseen_iff.trans ⟨fun h => ⟨text, error, rfl, h⟩, ?_⟩
        rintro ⟨_, _, heq, h⟩
        cases heq
        exact h
    | malformed fault => exact hnot (by cases fault <;> simp [failureKind]) (by simp)
  | incorrect fault => exact hnot (by simp [failureKind]) (by simp)
  | blankPath => exact hnot (by simp [failureKind]) (by simp)
  | config fault => exact hnot (by cases fault <;> simp [failureKind]) (by simp)
  | aborted h => exact hnot (by cases h <;> simp [failureKind]) (by simp)

theorem exists_of_failureKind_eq_incorrect (h : failureKind f = .incorrect) :
    ∃ fault, f = .schema (.incorrect fault) := by
  unfold failureKind at h
  split at h
  case h_6 text error => exact absurd h (yamlFailureKind_ne_incorrect error)
  case h_9 fault => exact ⟨fault, rfl⟩
  all_goals cases h

theorem verdict_error (h : ∀ fault, f ≠ .schema (.incorrect fault)) :
    verdict (.error f) = .error := by
  cases f with
  | schema error =>
    cases error with
    | malformed fault => rfl
    | incorrect fault => exact absurd rfl (h fault)
  | _ => rfl

/-- A failure leads to the exit code that it asks for, unless there is no message for it. -/
theorem conclude_eq_exit_iff (hf : f.OfRun) (verb : Verb) (code : ExitCode) :
    (conclude verb f).2 = .exit code ↔ ¬ f.Unforeseen ∧ verdict (.error f) = code := by
  rw [← failureKind_eq_unforeseen_iff hf]
  cases hkind : failureKind f with
  | incorrect =>
    obtain ⟨fault, rfl⟩ := exists_of_failureKind_eq_incorrect hkind
    simp [conclude, failureKind, verdict]
  | unforeseen => simp [conclude, hkind]
  | _ =>
    have hverdict : verdict (.error f) = .error := by
      refine verdict_error ?_
      rintro fault rfl
      cases hkind
    simp [conclude, hkind, hverdict]

/-! ## Answers -/

theorem map_eq_error_iff {α β ε : Type} {r : Except ε α} {g : α → β} {e : ε} :
    r.map g = .error e ↔ r = .error e := by
  cases r <;> simp [Except.map]

theorem map_eq_ok_iff {α β ε : Type} {r : Except ε α} {g : α → β} {b : β} :
    r.map g = .ok b ↔ ∃ a, r = .ok a ∧ g a = b := by
  cases r <;> simp [Except.map]

theorem toOption_eq_some_iff {α ε : Type} {r : Except ε α} {a : α} :
    r.toOption = some a ↔ r = .ok a := by
  cases r <;> simp [Except.toOption]

theorem ofRun_of_reply (h : task.reply files env = .error f) : f.OfRun := by
  cases task with
  | verify schema =>
    exact ofRun_of_verifySchema (map_eq_error_iff.mp h)
  | form schema => exact .schema (ofSchema_of_loadSchema (map_eq_error_iff.mp h))
  | validate schema document overrides json sort =>
    rw [Task.reply] at h
    cases hconfig : Config.ofEnvironment env with
    | error fault =>
      rw [hconfig] at h
      cases h
      exact .config fault
    | ok config =>
      rw [hconfig] at h
      exact ofRun_of_validateFile (map_eq_error_iff.mp h)

/-- What is printed of the library's answer to a task. -/
def Task.answer : Task → Reply → Answer
  | .form _, .schema s => .form s.form
  | .validate _ _ _ json sort, .report r => .report (if sort then r.sorted else r) json
  | _, _ => .correct

theorem run_result (task : Task) : (task.run files env).result =
    (task.reply files env).map task.answer := by
  cases task with
  | verify schema =>
    rw [Task.run, Task.reply, Run.bind_result]
    cases (verifySchema files schema).result <;> rfl
  | form schema =>
    rw [Task.run, Task.reply, Run.bind_result]
    cases (loadSchema files schema).result <;> rfl
  | validate schema document overrides json sort =>
    rw [Task.run, Task.reply, Run.bind_result]
    cases hconfig : Config.ofEnvironment env with
    | error fault => rfl
    | ok config =>
      show (validateFile files config overrides schema document >>= _ : Run Answer).result =
        ((validateFile files config overrides schema document).result.map Reply.report).map _
      rw [Run.bind_result]
      cases (validateFile files config overrides schema document).result <;> rfl

/-! ## Halves of surrogate pairs -/

/-- What a task comes to, its answer or the kind of its failure, does not depend on what stands for
half a surrogate pair: no half that a file writes gets into what is to be printed. -/
def Task.IsWhole (files : Files) (env : List (String × String)) (task : Task) : Prop :=
  ∀ halves, (task.run { files with halves } env).result.mapError failureKind =
    (task.run files env).result.mapError failureKind

theorem isValid_sorted (r : Report) : r.sorted.isValid = r.isValid := by
  have hlength : r.sorted.violations.length = r.violations.length := List.length_mergeSort _
  rw [Bool.eq_iff_iff, Report.isValid, Report.isValid, List.isEmpty_iff_length_eq_zero,
    List.isEmpty_iff_length_eq_zero, hlength]

/-- The answer that is printed leads to the exit code that the library's answer asks for. -/
theorem exitCode_answer {reply : Reply} (h : task.reply files env = .ok reply) :
    (task.answer reply).exitCode = verdict (.ok reply) := by
  cases task with
  | verify schema =>
    obtain ⟨s, -, rfl⟩ := map_eq_ok_iff.mp h
    rfl
  | form schema =>
    obtain ⟨s, -, rfl⟩ := map_eq_ok_iff.mp h
    rfl
  | validate schema document overrides json sort =>
    rw [Task.reply] at h
    cases hconfig : Config.ofEnvironment env with
    | error fault =>
      rw [hconfig] at h
      cases h
    | ok config =>
      rw [hconfig] at h
      obtain ⟨r, -, rfl⟩ := map_eq_ok_iff.mp h
      have hvalid : (if sort then r.sorted else r).isValid = r.isValid := by
        split_ifs
        · exact isValid_sorted r
        · rfl
      show (if (if sort then r.sorted else r).isValid then ExitCode.success else .violation) =
        if r.violations = [] then .success else .violation
      simp only [hvalid]
      simp only [Report.isValid, List.isEmpty_iff]

theorem perform_eq_transcript {arguments : List String} {verbose : Bool}
    (h : Invocation.read arguments = .ok ⟨verbose, some task⟩) :
    perform files env arguments = transcript verbose task.verb (task.run files env) := by
  rw [perform, h]

/-- The program ends with the code that the library's answer asks for, unless that is a failure
without a message. -/
theorem conclusion_transcript (verbose : Bool) (verb : Verb) (task : Task) (code : ExitCode) :
    (transcript verbose verb (task.run files env)).conclusion = .exit code ↔
      (∀ f, task.reply files env = .error f → ¬ f.Unforeseen) ∧
        verdict (task.reply files env) = code := by
  rw [transcript, run_result]
  cases hreply : task.reply files env with
  | ok reply => simp [Except.map, exitCode_answer hreply]
  | error f => simpa [Except.map] using conclude_eq_exit_iff (ofRun_of_reply hreply) verb code

theorem stdout_transcript (verbose : Bool) (verb : Verb) (task : Task) :
    (transcript verbose verb (task.run files env)).stdout =
      match task.reply files env with
      | .ok reply => (task.answer reply).print.1.map .text
      | .error _ => [] := by
  rw [transcript, run_result]
  cases task.reply files env <;> rfl

theorem stdout_perform_of_reply {verbose : Bool} {reply : Reply}
    (hread : Invocation.read arguments = .ok ⟨verbose, some task⟩)
    (hreply : task.reply files env = .ok reply) :
    (perform files env arguments).stdout = (task.answer reply).print.1.map .text := by
  rw [perform_eq_transcript hread, stdout_transcript, hreply]

theorem conclusion_perform_of_reply {verbose : Bool} {reply : Reply}
    (hread : Invocation.read arguments = .ok ⟨verbose, some task⟩)
    (hreply : task.reply files env = .ok reply) :
    (perform files env arguments).conclusion = .exit (task.answer reply).exitCode := by
  rw [perform_eq_transcript hread, conclusion_transcript, hreply, exitCode_answer hreply]
  exact ⟨nofun, rfl⟩

/-- A key that is half a surrogate pair gets into the report. -/
example :
    let files := Files.ofTree
      [("s.json", .text "\x7b\"values\": \x7b\"type\": \"string\"\x7d\x7d"),
        ("d.json", .text "\x7b\"\\ud800\": 1\x7d")]
    let task := Task.validate (.ofString "s.json") (some (.ofString "d.json")) {} false false
    ¬ task.IsWhole files [] := by
  intro files task hwhole
  have hsame := congrArg Except.toOption (hwhole fun _ => 'a')
  revert hsame
  decide +kernel

end Command

end SchemaForms
