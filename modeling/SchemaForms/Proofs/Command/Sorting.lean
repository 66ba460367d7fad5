import Mathlib.Data.Prod.Lex
import SchemaForms.Proofs.Command.ExitCode
import SchemaForms.Proofs.Report

/-!
# What a sorted report depends on

A sorted report is a permutation of the report, in the order of the pointers into the schema and
then of those into the document, and it is the same for all reports with the same violations
(`sorted_canonical`). So two command lines that ask for sorted reports print the same whenever the
reports have the same violations, in whatever order these were found.
-/

namespace SchemaForms

/-- What the violations of a sorted report are in the order of: their pointers into the schema, and
for the same one those into the document. -/
def Violation.pointers (v : Violation) : String ×ₗ String :=
  toLex (v.schemaPointer, v.instancePointer)

theorem Violation.before_iff_pointers_le {a b : Violation} :
    a.before b = true ↔ a.pointers ≤ b.pointers := by
  rw [before_iff, Prod.Lex.le_iff]
  rfl

theorem Report.pairwise_pointers_sorted (r : Report) :
    r.sorted.violations.Pairwise fun a b => a.pointers ≤ b.pointers := by
  apply r.pairwise_sorted.imp
  intro a b h
  exact Violation.before_iff_pointers_le.mp h

namespace Command

/-- The command line asks for a sorted report of a document, as a document or in plain lines, and
the report is this one before it is sorted. -/
def AsksSorted (files : Files) (env : List (String × String)) (arguments : List String)
    (json : Bool) (r : Report) : Prop :=
  ∃ verbose schema document overrides,
    let task := Task.validate schema document overrides json true
    Invocation.read arguments = .ok ⟨verbose, some task⟩ ∧
      task.reply files env = .ok (.report r)

variable {files : Files} {env : List (String × String)} {arguments : List String} {json : Bool}
  {r : Report}

theorem AsksSorted.stdout (h : AsksSorted files env arguments json r) :
    (perform files env arguments).stdout =
      (Answer.report r.sorted json).print.1.map .text := by
  obtain ⟨verbose, schema, document, overrides, hread, hreply⟩ := h
  exact stdout_perform_of_reply hread hreply

theorem AsksSorted.conclusion (h : AsksSorted files env arguments json r) :
    (perform files env arguments).conclusion = .exit (Answer.report r.sorted json).exitCode := by
  obtain ⟨verbose, schema, document, overrides, hread, hreply⟩ := h
  exact conclusion_perform_of_reply hread hreply

/-- **The order of a sorted report is canonical.** Reports with the same violations are sorted into
one list, which has these violations in the order of their pointers and is not changed by sorting it
again. What a command line prints that asks for it, and the exit code, depend on nothing else. -/
theorem sorted_canonical :
    (∀ r r' : Report, r.sorted = r'.sorted ↔ r.violations.Perm r'.violations) ∧
    (∀ r : Report, r.sorted.violations.Perm r.violations ∧
      (r.sorted.violations.Pairwise fun a b => a.pointers ≤ b.pointers) ∧
      r.sorted.sorted = r.sorted) ∧
    ∀ (files files' : Files) (env env' : List (String × String))
      (arguments arguments' : List String) (json : Bool) (r r' : Report),
      AsksSorted files env arguments json r →
      AsksSorted files' env' arguments' json r' → r.violations.Perm r'.violations →
      (perform files env arguments).stdout = (perform files' env' arguments').stdout ∧
        (perform files env arguments).conclusion = (perform files' env' arguments').conclusion := by
  refine ⟨fun r r' => Report.sorted_eq_iff_perm, fun r => ⟨?_, ?_, ?_⟩, ?_⟩
  · exact r.sorted_perm
  · exact r.pairwise_pointers_sorted
  · exact r.sorted_sorted
  · intro files files' env env' arguments arguments' json r r' h h' hperm
    have hsorted : r.sorted = r'.sorted := Report.sorted_eq_of_perm hperm
    rw [h.stdout, h'.stdout, h.conclusion, h'.conclusion, hsorted]
    exact ⟨rfl, rfl⟩

/-- The report that the library answers a task with. -/
def Task.report? (files : Files) (env : List (String × String)) (task : Task) : Option Report :=
  match task.reply files env with
  | .ok (.report r) => some r
  | _ => none

theorem Task.reply_eq_of_report? {task : Task} (h : task.report? files env = some r) :
    task.reply files env = .ok (.report r) := by
  unfold Task.report? at h
  split at h
  · next r' hreply =>
    cases h
    exact hreply
  · cases h

/-- Two members that are no texts, found in either order. -/
theorem sorted_canonical_members :
    let schema := "\x7b\"values\": \x7b\"type\": \"string\"\x7d\x7d"
    let files := Files.ofTree
      [("s.json", .text schema), ("d.json", .text "\x7b\"a\":1,\"b\":2\x7d")]
    let files' := Files.ofTree
      [("s.json", .text schema), ("d.json", .text "\x7b\"b\":2,\"a\":1\x7d")]
    let arguments := ["validate", "--sort", "s.json", "d.json"]
    let a : Violation := ⟨["a"], ["values", "type"]⟩
    let b : Violation := ⟨["b"], ["values", "type"]⟩
    AsksSorted files [] arguments false ⟨[a, b]⟩ ∧ AsksSorted files' [] arguments false ⟨[b, a]⟩ ∧
      (perform files [] arguments).stdout = (perform files' [] arguments).stdout := by
  intro schema files files' arguments a b
  have hread : Invocation.read arguments = .ok ⟨false, some (.validate (.ofString "s.json")
      (some (.ofString "d.json")) {} false true)⟩ := toOption_eq_some_iff.mp (by decide +kernel)
  have h : AsksSorted files [] arguments false ⟨[a, b]⟩ :=
    ⟨_, _, _, _, hread, Task.reply_eq_of_report? (by decide +kernel)⟩
  have h' : AsksSorted files' [] arguments false ⟨[b, a]⟩ :=
    ⟨_, _, _, _, hread, Task.reply_eq_of_report? (by decide +kernel)⟩
  exact ⟨h, h', (sorted_canonical.2.2 _ _ _ _ _ _ _ _ _ h h' (.swap b a [])).1⟩

end Command

end SchemaForms
