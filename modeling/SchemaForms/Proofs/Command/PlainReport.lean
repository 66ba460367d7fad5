import SchemaForms.Proofs.Command.Sorting
import SchemaForms.Proofs.Validation.Descents

/-!
# What the plain report tells apart

The plain report writes a violation as its two pointers with a tab between them, and a line feed
behind. A pointer escapes neither the tab nor the line feed, and the pointer to the whole document
is shown as a slash, which is the pointer to the member with the blank key as well. The tab does no
harm: with the tab the text of a violation is a pointer itself (`Violation.plain_eq_pointer`), so
two texts are the same only where a part of one violation's path into the schema ends up in the
other's path into the document, and in one run the paths do not go deep enough for that
(`Violation.Charted.plain_eq_iff`). So a plain report has a line for each violation if no token has
a line feed, and the violations are written differently but for those of the whole document and of
its blank member at one place of the schema (`plain_report_tells_apart`).
-/

namespace SchemaForms

/-! ## The pointers that are shown -/

/-- The path whose pointer is shown for a path. -/
def shownPath (path : List String) : List String := if path = [] then [""] else path

theorem shownPath_of_ne_nil {path : List String} (h : path ≠ []) : shownPath path = path :=
  if_neg h

theorem shownPath_eq_iff {p q : List String} :
    shownPath p = shownPath q ↔ p = q ∨ p = [] ∧ q = [""] ∨ p = [""] ∧ q = [] := by
  by_cases hp : p = []
  · by_cases hq : q = []
    · simp [shownPath, hp, hq]
    · simp [shownPath, hp, hq, eq_comm]
  · by_cases hq : q = []
    · simp [shownPath, hp, hq]
    · simp [shownPath, hp, hq]

theorem exists_last_shownPath (path : List String) :
    ∃ front last, shownPath path = front ++ [last] := by
  by_cases h : path = []
  · exact ⟨[], "", by rw [shownPath, if_pos h]; rfl⟩
  · rw [shownPath_of_ne_nil h]
    exact ⟨path.dropLast, path.getLast h, (List.dropLast_concat_getLast h).symm⟩

theorem length_le_shownPath (path : List String) : path.length ≤ (shownPath path).length := by
  by_cases h : path = []
  · simp [h]
  · rw [shownPath_of_ne_nil h]

theorem pointer_append (p q : List String) : pointer (p ++ q) = pointer p ++ pointer q := by
  simp [pointer]

theorem shownPointer_pointer (path : List String) :
    Command.shownPointer (pointer path) = pointer (shownPath path) := by
  by_cases h : path = []
  · subst h
    decide
  · have hne : pointer path ≠ "" := fun heq => h (pointer_injective heq)
    rw [Command.shownPointer, if_neg hne, shownPath_of_ne_nil h]

theorem pointer_append_tab (front : List String) (last : String) :
    pointer (front ++ [last]) ++ "\t" = pointer (front ++ [last ++ "\t"]) := by
  have hlast : pointer [last ++ "\t"] = pointer [last] ++ "\t" := by
    apply String.toList_injective
    simp [pointer, pointerToken, pointerChar]
  rw [pointer_append, pointer_append, hlast, String.append_assoc]

theorem append_tab_notMem_pathWords (token : String) : token ++ "\t" ∉ pathWords := by
  intro hmem
  have htab : ∀ word ∈ pathWords, '\t' ∉ word.toList := by decide
  apply htab _ hmem
  simp

/-! ## The text of a violation -/

namespace Violation

variable {root : Schema} {v w : Violation}

/-- The text of a violation in the plain report, without the end of its line. -/
def plain (v : Violation) : String :=
  Command.shownPointer v.instancePointer ++ "\t" ++ Command.shownPointer v.schemaPointer

/-- With the tab the text of a violation is a pointer itself. -/
theorem plain_eq_pointer {front : List String} {last : String}
    (h : shownPath v.instancePath = front ++ [last]) :
    v.plain = pointer (front ++ (last ++ "\t") :: shownPath v.schemaPath) := by
  rw [plain, instancePointer, schemaPointer, shownPointer_pointer, shownPointer_pointer, h,
    pointer_append_tab, ← pointer_append, List.append_assoc]
  rfl

/-- No part of one violation's path into the schema is shown in another's path into the document. -/
theorem Charted.not_shifted (hv : v.Charted root) (hw : w.Charted root)
    {front between : List String} {last last' : String}
    (hinstance : shownPath v.instancePath = front ++ [last])
    (hinstance' : shownPath w.instancePath = front ++ (last ++ "\t") :: between ++ [last'])
    (hschema : shownPath v.schemaPath =
      between ++ (last' ++ "\t") :: shownPath w.schemaPath) : False := by
  have hcut : v.schemaPath = between ++ (last' ++ "\t") :: shownPath w.schemaPath := by
    rw [← hschema, shownPath_of_ne_nil]
    intro hnil
    have hmem : last' ++ "\t" ∈ shownPath v.schemaPath := by simp [hschema]
    simp [shownPath, hnil] at hmem
  have hrest : shownPath w.schemaPath = w.schemaPath ∨
      shownPath w.schemaPath = [""] ∧ w.schemaPath = [] := by
    by_cases hnil : w.schemaPath = []
    · exact .inr ⟨if_pos hnil, hnil⟩
    · exact .inl (shownPath_of_ne_nil hnil)
  -- In the document `w` lies deeper than `v` by what stands in front of the cut, and one token more.
  have hle := hv.length_le hw hcut (append_tab_notMem_pathWords last') hrest
  have hvle := length_le_shownPath v.instancePath
  have hwne : w.instancePath ≠ [] := by
    intro hnil
    have hlength := congrArg List.length hinstance'
    simp [shownPath, hnil] at hlength
    omega
  rw [shownPath_of_ne_nil hwne] at hinstance'
  rw [hinstance] at hvle
  rw [hinstance'] at hle
  simp only [List.length_append, List.length_cons, List.length_nil] at hle hvle
  omega

/-- No path into a schema is a blank token. -/
theorem Charted.schemaPath_eq (hv : v.Charted root) (hw : w.Charted root)
    (h : shownPath v.schemaPath = shownPath w.schemaPath) : v.schemaPath = w.schemaPath := by
  rcases shownPath_eq_iff.mp h with heq | ⟨-, hblank⟩ | ⟨hblank, -⟩
  · exact heq
  · exact absurd (by rw [hblank]; rfl) hw.head_ne_blank
  · exact absurd (by rw [hblank]; rfl) hv.head_ne_blank

/-- The texts of two violations are the same pointer, with the tab of the first one no further
behind: then the tabs end the same token. -/
theorem Charted.eq_of_cut (hv : v.Charted root) (hw : w.Charted root)
    {front further : List String} {last last' : String}
    (hinstance : shownPath v.instancePath = front ++ [last])
    (hinstance' : shownPath w.instancePath = front ++ further ++ [last'])
    (hrest : (last ++ "\t") :: shownPath v.schemaPath =
      further ++ (last' ++ "\t") :: shownPath w.schemaPath) :
    shownPath v.instancePath = shownPath w.instancePath ∧ v.schemaPath = w.schemaPath := by
  cases further with
  | nil =>
    obtain ⟨hlast, hschema⟩ := List.cons.inj hrest
    rw [hinstance, hinstance', List.append_nil, (String.append_left_inj "\t").mp hlast]
    exact ⟨rfl, hv.schemaPath_eq hw hschema⟩
  | cons token between =>
    obtain ⟨rfl, hschema⟩ := List.cons.inj hrest
    exact (hv.not_shifted hw hinstance hinstance' hschema).elim

/-- Two violations of one run are written alike only if the same paths are shown for them. -/
theorem Charted.plain_eq_iff (hv : v.Charted root) (hw : w.Charted root) :
    v.plain = w.plain ↔
      shownPath v.instancePath = shownPath w.instancePath ∧ v.schemaPath = w.schemaPath := by
  constructor
  · intro h
    obtain ⟨front, last, hinstance⟩ := exists_last_shownPath v.instancePath
    obtain ⟨front', last', hinstance'⟩ := exists_last_shownPath w.instancePath
    rw [plain_eq_pointer hinstance, plain_eq_pointer hinstance'] at h
    -- One of the two tabs stands at the end of an earlier token, or both end the same token.
    rcases List.append_eq_append_iff.mp (pointer_injective h) with
      ⟨further, rfl, hrest⟩ | ⟨further, rfl, hrest⟩
    · exact hv.eq_of_cut hw hinstance hinstance' hrest
    · exact (hw.eq_of_cut hv hinstance' hinstance hrest).imp Eq.symm Eq.symm
  · rintro ⟨hinstance, hschema⟩
    rw [plain, plain, instancePointer, instancePointer, shownPointer_pointer,
      shownPointer_pointer, hinstance, schemaPointer, schemaPointer, hschema]

end Violation

/-! ## Line feeds -/

/-- How many line feeds the tokens of a path have. -/
def lineFeeds (path : List String) : Nat := (path.map fun token => token.toList.count '\n').sum

theorem lineFeeds_eq_zero_iff {path : List String} :
    lineFeeds path = 0 ↔ ∀ token ∈ path, '\n' ∉ token.toList := by
  simp only [lineFeeds, List.sum_eq_zero_iff_forall_eq_nat, List.forall_mem_map,
    List.count_eq_zero]

theorem lineFeeds_append (p q : List String) : lineFeeds (p ++ q) = lineFeeds p + lineFeeds q := by
  simp [lineFeeds]

theorem lineFeeds_shownPath (path : List String) : lineFeeds (shownPath path) = lineFeeds path := by
  by_cases h : path = []
  · rw [h]
    rfl
  · rw [shownPath_of_ne_nil h]

/-- A pointer escapes no line feed. -/
theorem count_pointerToken (token : String) :
    (pointerToken token).count '\n' = token.toList.count '\n' := by
  rw [pointerToken, List.count_cons_of_ne (by decide)]
  induction token.toList with
  | nil => rfl
  | cons c rest ih =>
    rw [List.flatMap_cons, List.count_append, ih, List.count_cons, pointerChar, Nat.add_comm]
    split_ifs <;> simp_all

theorem count_pointer (path : List String) : (pointer path).toList.count '\n' = lineFeeds path := by
  simp [pointer, List.count_flatMap, Function.comp_def, count_pointerToken, lineFeeds]

theorem Violation.count_plain (v : Violation) :
    v.plain.toList.count '\n' = lineFeeds (v.instancePath ++ v.schemaPath) := by
  have htab : "\t".toList.count '\n' = 0 := rfl
  rw [plain, instancePointer, schemaPointer, String.toList_append, String.toList_append,
    List.count_append, List.count_append, shownPointer_pointer, shownPointer_pointer,
    count_pointer, count_pointer, lineFeeds_shownPath, lineFeeds_shownPath, htab, lineFeeds_append]
  rfl

/-- The lines of a text in which every line is ended. -/
def Text.lines (text : String) : List String :=
  (text.toList.splitOn '\n').dropLast.map String.ofList

theorem Text.length_lines (text : String) : (Text.lines text).length = text.toList.count '\n' := by
  have hsplit : ∀ cs : List Char, (cs.splitOn '\n').length = cs.count '\n' + 1 := by
    intro cs
    induction cs with
    | nil => rfl
    | cons c rest ih =>
      rw [List.splitOn_cons_eq_if_modifyHead, List.count_cons]
      split_ifs with h
      · rw [List.length_cons, ih]
      · rw [List.length_modifyHead, ih]
  rw [Text.lines, List.length_map, List.length_dropLast, hsplit, Nat.add_sub_cancel]

theorem Text.lines_append {text : String} (h : '\n' ∉ text.toList) (rest : String) :
    Text.lines (text ++ "\n" ++ rest) = text :: Text.lines rest := by
  have htext : (text ++ "\n" ++ rest).toList = text.toList ++ '\n' :: rest.toList := by
    simp
  rw [Text.lines, htext, List.splitOn_append_cons_self_of_not_mem h,
    List.dropLast_cons_of_ne_nil (List.splitOn_ne_nil _ _), List.map_cons, String.ofList_toList]
  rfl

theorem Text.lines_join {texts : List String} (h : ∀ text ∈ texts, '\n' ∉ text.toList) :
    Text.lines (String.join (texts.map (· ++ "\n"))) = texts := by
  induction texts with
  | nil => rfl
  | cons text rest ih =>
    obtain ⟨htext, hrest⟩ := List.forall_mem_cons.mp h
    rw [List.map_cons, String.join_cons, lines_append htext, ih hrest]

theorem Violation.line_eq (v : Violation) : Command.violationLine v = v.plain ++ "\n" := rfl

theorem count_violationLines (violations : List Violation) :
    (String.join (violations.map Command.violationLine)).toList.count '\n' =
      violations.length +
        (violations.map fun v => lineFeeds (v.instancePath ++ v.schemaPath)).sum := by
  induction violations with
  | nil => rfl
  | cons v rest ih =>
    have hend : "\n".toList.count '\n' = 1 := rfl
    rw [List.map_cons, String.join_cons, String.toList_append, List.count_append, ih, v.line_eq,
      String.toList_append, List.count_append, v.count_plain, hend, List.map_cons, List.sum_cons,
      List.length_cons]
    omega

/-! ## The report of a run -/

namespace Command

variable {files : Files} {env : List (String × String)} {arguments : List String} {r : Report}

/-- A report comes from a walk under a root that passes its check. -/
theorem exists_trace_of_validateFile {config : Config} {overrides : Overrides} {schema : Path}
    {document : Option Path}
    (h : (validateFile files config overrides schema document).result = .ok r) :
    ∃ config root value, root.check = .ok () ∧
      r = ⟨(trace stackLimit config root value).violations⟩ := by
  unfold validateFile at h
  split at h
  · cases h
  · obtain ⟨value, -, h⟩ := Run.bind_result_eq_ok_iff.mp h
    obtain ⟨root, hroot, h⟩ := Run.bind_result_eq_ok_iff.mp h
    obtain ⟨config, -, h⟩ := Run.bind_result_eq_ok_iff.mp h
    refine ⟨config, root, value, check_of_verifySchema hroot, ?_⟩
    have houtcome := Run.ofExcept_result_eq_ok_iff.mp h
    exact (Trace.outcome_eq_ok_iff.mp houtcome).2

/-- The command line asks for the plain report of a document, this is the report in the order in
which it is printed, and the program says that the document does not meet the schema. -/
def PrintsPlainly (files : Files) (env : List (String × String)) (arguments : List String)
    (r : Report) : Prop :=
  ∃ verbose schema document overrides sort found,
    let task := Task.validate schema document overrides false sort
    Invocation.read arguments = .ok ⟨verbose, some task⟩ ∧
      task.reply files env = .ok (.report found) ∧
      r = (if sort then found.sorted else found) ∧
      (perform files env arguments).conclusion = .exit .violation

theorem PrintsPlainly.stdout (h : PrintsPlainly files env arguments r) :
    (perform files env arguments).stdout = r.violations.map fun v => .text (violationLine v) := by
  obtain ⟨verbose, schema, document, overrides, sort, found, hread, hreply, rfl, hexit⟩ := h
  rw [conclusion_perform_of_reply hread hreply, Task.answer, Answer.exitCode] at hexit
  have hinvalid : (if sort then found.sorted else found).isValid = false := by
    by_contra hvalid
    rw [if_pos (Bool.not_eq_false _ ▸ hvalid)] at hexit
    cases hexit
  rw [stdout_perform_of_reply hread hreply]
  simp only [Task.answer, Answer.print, hinvalid, Bool.false_eq_true, if_false, List.map_map]
  rfl

theorem PrintsPlainly.exists_charted (h : PrintsPlainly files env arguments r) :
    ∃ root, ∀ v ∈ r.violations, v.Charted root := by
  obtain ⟨verbose, schema, document, overrides, sort, found, -, hreply, rfl, -⟩ := h
  have hperm : (if sort then found.sorted else found).violations.Perm found.violations := by
    split_ifs
    · exact found.sorted_perm
    · exact .refl _
  rw [Task.reply] at hreply
  cases hconfig : Config.ofEnvironment env with
  | error fault =>
    rw [hconfig] at hreply
    cases hreply
  | ok config =>
    rw [hconfig] at hreply
    obtain ⟨report, hresult, heq⟩ := map_eq_ok_iff.mp hreply
    cases heq
    obtain ⟨config', root, value, hcheck, rfl⟩ := exists_trace_of_validateFile hresult
    exact ⟨root, fun v hv => charted_of_mem_violations hcheck (hperm.mem_iff.mp hv)⟩

/-- **What the plain report tells apart.** It writes the violations one after another, each ended by
a line feed. It has a line for each, and beyond that a line for each line feed in a token of their
paths, so its lines are the violations exactly if no token has one. Different violations are written
differently, unless both blame the same part of the schema, one for the whole document and the other
for its member with the blank key. -/
theorem plain_report_tells_apart (presentation : Presentation)
    (h : PrintsPlainly files env arguments r) :
    let out := renderPieces presentation (perform files env arguments).stdout
    out = String.join (r.violations.map violationLine) ∧
    (Text.lines out).length = r.violations.length +
      (r.violations.map fun v => lineFeeds (v.instancePath ++ v.schemaPath)).sum ∧
    (Text.lines out = r.violations.map Violation.plain ↔
      ∀ v ∈ r.violations, ∀ token ∈ v.instancePath ++ v.schemaPath, '\n' ∉ token.toList) ∧
    ∀ v ∈ r.violations, ∀ w ∈ r.violations, v ≠ w →
      (v.plain = w.plain ↔ v.schemaPath = w.schemaPath ∧
        (v.instancePath = [] ∧ w.instancePath = [""] ∨
          v.instancePath = [""] ∧ w.instancePath = [])) := by
  intro out
  have hout : out = String.join (r.violations.map violationLine) := by
    simp only [out, h.stdout, renderPieces, List.map_map]
    rfl
  have hlength : (Text.lines out).length = r.violations.length +
      (r.violations.map fun v => lineFeeds (v.instancePath ++ v.schemaPath)).sum := by
    rw [Text.length_lines, hout, count_violationLines]
  refine ⟨hout, hlength, ⟨fun hlines v hv => ?_, fun hfeeds => ?_⟩, fun v hv w hw hne => ?_⟩
  · rw [hlines, List.length_map] at hlength
    have hsum : (r.violations.map fun v => lineFeeds (v.instancePath ++ v.schemaPath)).sum = 0 := by
      omega
    rw [List.sum_eq_zero_iff_forall_eq_nat, List.forall_mem_map] at hsum
    exact lineFeeds_eq_zero_iff.mp (hsum v hv)
  · have hplain : ∀ text ∈ r.violations.map Violation.plain, '\n' ∉ text.toList := by
      intro text htext
      obtain ⟨v, hv, rfl⟩ := List.mem_map.mp htext
      rw [← List.count_eq_zero, v.count_plain]
      exact lineFeeds_eq_zero_iff.mpr (hfeeds v hv)
    rw [hout, ← Text.lines_join hplain, List.map_map]
    rfl
  · obtain ⟨root, hcharted⟩ := h.exists_charted
    rw [(hcharted v hv).plain_eq_iff (hcharted w hw), shownPath_eq_iff, and_comm]
    constructor
    · rintro ⟨hschema, heq | hblank⟩
      · exact absurd (congrArg₂ Violation.mk heq hschema) hne
      · exact ⟨hschema, hblank⟩
    · rintro ⟨hschema, hblank⟩
      exact ⟨hschema, .inr hblank⟩

theorem printsPlainly_of_report? {verbose : Bool} {schema : Path} {document : Option Path}
    {overrides : Overrides}
    (hread : Invocation.read arguments =
      .ok ⟨verbose, some (.validate schema document overrides false false)⟩)
    (hreport : (Task.validate schema document overrides false false).report? files env = some r)
    (hne : r.violations ≠ []) : PrintsPlainly files env arguments r := by
  have hreply := Task.reply_eq_of_report? hreport
  refine ⟨verbose, schema, document, overrides, false, r, hread, hreply, rfl, ?_⟩
  have hinvalid : r.isValid ≠ true := mt List.isEmpty_iff.mp hne
  rw [conclusion_perform_of_reply hread hreply]
  exact congrArg Conclusion.exit (if_neg hinvalid)

/-- A member with a tab in its key and one with the blank key, neither of them a text. -/
theorem plain_report_tells_apart_members :
    let files := Files.ofTree
      [("s.json", .text "\x7b\"values\": \x7b\"type\": \"string\"\x7d\x7d"),
        ("d.json", .text "\x7b\"a\\tb\": 1, \"\": 2\x7d")]
    let arguments := ["validate", "s.json", "d.json"]
    let a : Violation := ⟨["a\tb"], ["values", "type"]⟩
    let b : Violation := ⟨[""], ["values", "type"]⟩
    let presentation : Presentation := ⟨fun _ => "", "", ""⟩
    PrintsPlainly files [] arguments ⟨[a, b]⟩ ∧
      Text.lines (renderPieces presentation (perform files [] arguments).stdout) =
        ["/a\tb\t/values/type", "/\t/values/type"] ∧ a.plain ≠ b.plain := by
  intro files arguments a b presentation
  have hread : Invocation.read arguments = .ok ⟨false, some (.validate (.ofString "s.json")
      (some (.ofString "d.json")) {} false false)⟩ := toOption_eq_some_iff.mp (by decide +kernel)
  have h : PrintsPlainly files [] arguments ⟨[a, b]⟩ :=
    printsPlainly_of_report? hread (by decide +kernel) (List.cons_ne_nil _ _)
  obtain ⟨-, -, hlines, hapart⟩ := plain_report_tells_apart presentation h
  refine ⟨h, ?_, ?_⟩
  · rw [hlines.mpr (by decide)]
    decide
  · rw [ne_eq, hapart a (by simp) b (by simp) (by decide)]
    decide

/-- A report whose two violations are written alike, one of the whole document and one of its blank
member, and a report of one violation with a line feed in its key, which makes two lines of it. -/
theorem plain_report_not_apart :
    let node := "\x7b\"properties\": \x7b\"x\": \x7b\x7d\x7d, " ++
      "\"optionalProperties\": \x7b\"\": \x7b\"ref\": \"node\"\x7d\x7d\x7d"
    let files := Files.ofTree
      [("s.json", .text ("\x7b\"definitions\": \x7b\"node\": " ++ node ++
          "\x7d, \"ref\": \"node\"\x7d")),
        ("d.json", .text "\x7b\"\": \x7b\x7d\x7d")]
    let arguments := ["validate", "s.json", "d.json"]
    let whole : Violation := ⟨[], ["definitions", "node", "properties", "x"]⟩
    let blank : Violation := ⟨[""], ["definitions", "node", "properties", "x"]⟩
    let files' := Files.ofTree
      [("s.json", .text "\x7b\"values\": \x7b\"type\": \"string\"\x7d\x7d"),
        ("d.json", .text "\x7b\"a\\nb\": 1\x7d")]
    let broken : Violation := ⟨["a\nb"], ["values", "type"]⟩
    PrintsPlainly files [] arguments ⟨[whole, blank]⟩ ∧ whole ≠ blank ∧
      (perform files [] arguments).stdout = [.text "/\t/definitions/node/properties/x\n",
        .text "/\t/definitions/node/properties/x\n"] ∧
      PrintsPlainly files' [] arguments ⟨[broken]⟩ ∧
      (perform files' [] arguments).stdout = [.text "/a\nb\t/values/type\n"] ∧
      Text.lines "/a\nb\t/values/type\n" = ["/a", "b\t/values/type"] := by
  intro node files arguments whole blank files' broken
  have hread : Invocation.read arguments = .ok ⟨false, some (.validate (.ofString "s.json")
      (some (.ofString "d.json")) {} false false)⟩ := toOption_eq_some_iff.mp (by decide +kernel)
  have h : PrintsPlainly files [] arguments ⟨[whole, blank]⟩ :=
    printsPlainly_of_report? hread (by decide +kernel) (List.cons_ne_nil _ _)
  have h' : PrintsPlainly files' [] arguments ⟨[broken]⟩ :=
    printsPlainly_of_report? hread (by decide +kernel) (List.cons_ne_nil _ _)
  refine ⟨h, by decide, ?_, h', ?_, by decide⟩
  · rw [h.stdout]
    decide
  · rw [h'.stdout]
    decide

end Command

end SchemaForms
