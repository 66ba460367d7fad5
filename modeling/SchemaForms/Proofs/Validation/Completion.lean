import SchemaForms.Proofs.Validation.Outcome

/-!
# Walks that come to their end

`Completes` says what parts record when they come to their end one after another, and which frames
they visit on the way, without a stack and without a count of violations. It is what the walk of
the parts does with stack enough, when violations are not limited (`Completes.of_walkParts`,
`Completes.walkParts`), so a run returns a report exactly when the visit of the whole document
completes with its violations (`endsWith_ok_iff_completes`).
-/

namespace SchemaForms

open SchemaForms.Frame

/-- The parts come to their end one after another: they record these violations and visit these
frames, which stand in the order in which their steps end. -/
inductive Completes (config : Config) (root : Schema) :
    List Part → List Violation → List Frame → Prop
  | nil : Completes config root [] [] []
  | report {v : Violation} {rest : List Part} {violations : List Violation} {frames : List Frame}
      (h : Completes config root rest violations frames) :
      Completes config root (.report v :: rest) (v :: violations) frames
  | visit {f : Frame} {rest : List Part} {violations more : List Violation}
      {frames others : List Frame}
      (hf : Completes config root (f.parts config root) violations frames)
      (h : Completes config root rest more others) :
      Completes config root (.visit f :: rest) (violations ++ more) (frames ++ f :: others)

variable {config : Config} {root : Schema} {document : Value} {stack found : Nat} {f : Frame}
  {parts parts' : List Part} {violations violations' : List Violation}
  {frames frames' : List Frame}

namespace Completes

theorem append (h : Completes config root parts violations frames)
    (h' : Completes config root parts' violations' frames') :
    Completes config root (parts ++ parts') (violations ++ violations') (frames ++ frames') := by
  induction h with
  | nil => exact h'
  | report _ ih => exact .report ih
  | visit hf _ _ ih =>
    rw [List.append_assoc, List.append_assoc]
    exact .visit hf ih

theorem append_iff :
    Completes config root (parts ++ parts') violations frames ↔
      ∃ first before second after, Completes config root parts first before ∧
        Completes config root parts' second after ∧
        violations = first ++ second ∧ frames = before ++ after := by
  constructor
  · intro h
    induction parts generalizing violations frames with
    | nil => exact ⟨[], [], violations, frames, .nil, h, rfl, rfl⟩
    | cons p rest ih =>
      cases h with
      | report h =>
        obtain ⟨first, before, second, after, hfirst, hsecond, rfl, rfl⟩ := ih h
        exact ⟨_, _, _, _, .report hfirst, hsecond, rfl, rfl⟩
      | visit hf h =>
        obtain ⟨first, before, second, after, hfirst, hsecond, rfl, rfl⟩ := ih h
        exact ⟨_, _, _, _, .visit hf hfirst, hsecond, by simp, by simp⟩
  · rintro ⟨first, before, second, after, hfirst, hsecond, rfl, rfl⟩
    exact hfirst.append hsecond

theorem reports (violations : List Violation) :
    Completes config root (violations.map .report) violations [] := by
  induction violations with
  | nil => exact .nil
  | cons v rest ih => exact .report ih

/-- Parts complete in one way at most. -/
theorem unique (h : Completes config root parts violations frames)
    (h' : Completes config root parts violations' frames') :
    violations = violations' ∧ frames = frames' := by
  induction h generalizing violations' frames' with
  | nil =>
    cases h'
    exact ⟨rfl, rfl⟩
  | report _ ih =>
    cases h' with
    | report h' =>
      obtain ⟨rfl, rfl⟩ := ih h'
      exact ⟨rfl, rfl⟩
  | visit _ _ ihf ih =>
    cases h' with
    | visit hf' h' =>
      obtain ⟨rfl, rfl⟩ := ihf hf'
      obtain ⟨rfl, rfl⟩ := ih h'
      exact ⟨rfl, rfl⟩

theorem reports_iff :
    Completes config root (violations'.map .report) violations frames ↔
      violations = violations' ∧ frames = [] := by
  constructor
  · exact fun h => h.unique (reports violations')
  · rintro ⟨rfl, rfl⟩
    exact reports violations

theorem visit_iff :
    Completes config root [.visit f] violations frames ↔
      ∃ inner, Completes config root (f.parts config root) violations inner ∧
        frames = inner ++ [f] := by
  constructor
  · intro h
    cases h with
    | visit hf h =>
      cases h
      exact ⟨_, by rwa [List.append_nil], rfl⟩
  · rintro ⟨inner, h, rfl⟩
    simpa using h.visit .nil

theorem exists_reports_iff (violations' : List Violation) :
    (∃ frames, Completes config root (violations'.map .report) violations frames) ↔
      violations = violations' := by
  simp only [reports_iff, exists_and_left, exists_eq, and_true]

theorem exists_visit_iff :
    (∃ frames, Completes config root [.visit f] violations frames) ↔
      ∃ frames, Completes config root (f.parts config root) violations frames := by
  simp only [visit_iff]
  constructor
  · rintro ⟨_, inner, h, -⟩
    exact ⟨inner, h⟩
  · rintro ⟨inner, h⟩
    exact ⟨_, inner, h, rfl⟩

theorem exists_append_iff :
    (∃ frames, Completes config root (parts ++ parts') violations frames) ↔
      ∃ first second, (∃ frames, Completes config root parts first frames) ∧
        (∃ frames, Completes config root parts' second frames) ∧
        violations = first ++ second := by
  constructor
  · rintro ⟨_, h⟩
    obtain ⟨first, _, second, _, hfirst, hsecond, rfl, -⟩ := append_iff.mp h
    exact ⟨first, second, ⟨_, hfirst⟩, ⟨_, hsecond⟩, rfl⟩
  · rintro ⟨first, second, ⟨_, hfirst⟩, ⟨_, hsecond⟩, rfl⟩
    exact ⟨_, hfirst.append hsecond⟩

/-- The parts for several things complete when those for each of them do. -/
theorem flatMap_iff {α : Type} {part : α → List Part} {xs : List α} :
    (∃ frames, Completes config root (xs.flatMap part) violations frames) ↔
      ∃ pieces, List.Forall₂
        (fun x piece => ∃ frames, Completes config root (part x) piece frames) xs pieces ∧
        violations = pieces.flatten := by
  induction xs generalizing violations with
  | nil =>
    rw [List.flatMap_nil, ← List.map_nil, exists_reports_iff]
    simp
  | cons x rest ih =>
    rw [List.flatMap_cons, exists_append_iff]
    constructor
    · rintro ⟨first, second, hfirst, hsecond, rfl⟩
      obtain ⟨pieces, hpieces, rfl⟩ := ih.mp hsecond
      exact ⟨first :: pieces, .cons hfirst hpieces, rfl⟩
    · rintro ⟨_, h, rfl⟩
      obtain _ | ⟨hx, hrest⟩ := h
      exact ⟨_, _, hx, ih.mpr ⟨_, hrest, rfl⟩, rfl⟩

theorem halt_not_mem (h : Completes config root parts violations frames) (cause : Halt) :
    .halt cause ∉ parts := by
  induction h with
  | nil => simp
  | report _ ih => simpa using ih
  | visit _ _ _ ih => simpa using ih

/-- The frames are those that the parts visit and those that their steps go on to. -/
theorem mem_frames_iff (h : Completes config root parts violations frames) :
    f ∈ frames ↔ ∃ g, .visit g ∈ parts ∧ Visits config root g f := by
  induction h with
  | nil => simp
  | report _ ih => simp only [ih, List.mem_cons, reduceCtorEq, false_or]
  | @visit p rest _ _ inner others _ _ ihp ih =>
    rw [List.mem_append, List.mem_cons, ih, ihp]
    constructor
    · rintro (⟨g, hg, hvisits⟩ | rfl | ⟨g, hg, hvisits⟩)
      · exact ⟨p, List.mem_cons_self, .head hg hvisits⟩
      · exact ⟨f, List.mem_cons_self, .refl⟩
      · exact ⟨g, List.mem_cons_of_mem _ hg, hvisits⟩
    · rintro ⟨g, hg, hvisits⟩
      rcases List.mem_cons.mp hg with heq | hg
      · obtain rfl : g = p := Part.visit.inj heq
        rcases hvisits.cases_head with rfl | ⟨q, hq, hvisits⟩
        · exact .inr (.inl rfl)
        · exact .inl ⟨q, hq, hvisits⟩
      · exact .inr (.inr ⟨g, hg, hvisits⟩)

/-! ## Walks and their completion -/

theorem of_walkParts
    (hvisit : ∀ g, .visit g ∈ parts → ∀ n inner, g.walk config root stack n = ⟨inner, none⟩ →
      ∃ frames, Completes config root (g.parts config root) inner frames)
    (h : walkParts config root stack parts found = ⟨violations, none⟩) :
    ∃ frames, Completes config root parts violations frames := by
  induction parts generalizing found violations with
  | nil =>
    cases h
    exact ⟨_, .nil⟩
  | cons p rest ih =>
    obtain ⟨before, after, hp, hrest, rfl⟩ := Walk.andThen_eq_end_iff.mp h
    obtain ⟨frames, hcompletes⟩ := ih (fun g hg => hvisit g (List.mem_cons_of_mem _ hg)) hrest
    cases p with
    | report v =>
      obtain rfl : [v] = before := congrArg Trace.violations hp
      exact ⟨_, .report hcompletes⟩
    | halt cause => cases hp
    | visit g =>
      obtain ⟨inner, hg⟩ := hvisit g List.mem_cons_self _ _ hp
      exact ⟨_, .visit hg hcompletes⟩

/-- A walk that comes to its end is one that completes. -/
theorem of_walk (h : f.walk config root stack found = ⟨violations, none⟩) :
    ∃ frames, Completes config root (f.parts config root) violations frames := by
  induction stack generalizing f found violations with
  | zero =>
    rw [walk_zero] at h
    cases h
  | succ stack ih =>
    rw [walk_succ] at h
    exact of_walkParts (fun _ _ _ _ => ih) h

/-- Without a limit on violations, what completes is walked to its end by every stack that is large
enough, however many violations were found before. -/
theorem walkParts_eq (hfree : config.maxErrors = 0)
    (h : Completes config root parts violations frames) :
    ∃ enough, ∀ stack, enough ≤ stack → ∀ found,
      walkParts config root stack parts found = ⟨violations, none⟩ := by
  induction h with
  | nil => exact ⟨0, fun _ _ _ => rfl⟩
  | @report v rest violations frames _ ih =>
    obtain ⟨enough, hrest⟩ := ih
    refine ⟨enough, fun stack hstack found => Walk.andThen_eq_end_iff.mpr ?_⟩
    have hv : Part.walk config root stack (.report v) found = ⟨[v], none⟩ := by
      rw [Part.walk, hfree, Walk.report, if_neg (Nat.succ_ne_zero found)]
    exact ⟨[v], violations, hv, hrest stack hstack _, rfl⟩
  | @visit f rest violations more frames others _ _ ihf ih =>
    obtain ⟨enough, hf⟩ := ihf
    obtain ⟨enough', hrest⟩ := ih
    refine ⟨max (enough + 1) enough', fun stack hstack found => Walk.andThen_eq_end_iff.mpr ?_⟩
    obtain ⟨less, rfl⟩ : ∃ less, stack = less + 1 := ⟨stack - 1, by omega⟩
    refine ⟨violations, more, ?_, hrest _ (by omega) _, rfl⟩
    rw [Part.walk, walk_succ]
    exact hf less (by omega) found

end Completes

/-! ## Reports -/

/-- Without a limit on violations no walk halts for it. -/
theorem Frame.Regular.halt_ne_errorLimit (hcheck : root.check = .ok ())
    (hfree : config.maxErrors = 0) (hf : Regular root f) :
    (f.walk config root stack found).halt ≠ some .errorLimit := by
  induction stack generalizing f found with
  | zero => simp [walk_zero, Walk.halt]
  | succ stack ih =>
    intro h
    obtain ⟨p, hp, n, h⟩ := exists_part_of_halt h
    cases (hf.mem_parts_iff hcheck).mp hp with
    | enters henters => exact ih (hf.of_enters henters) h
    | rejects _ => simp [Part.walk, Walk.report, hfree] at h
    | tooDeep _ _ => cases h

/-- Without a limit on violations a run returns what the visit of the whole document completes
with. -/
theorem endsWith_ok_iff_completes (hcheck : root.check = .ok ()) (hjson : document.isJson)
    (hfree : config.maxErrors = 0) {report : Report} :
    EndsWith config root document (.ok report) ↔
      ∃ frames, Completes config root [.visit (start root document)] report.violations frames := by
  constructor
  · rintro ⟨enough, hends⟩
    obtain ⟨hhalt, rfl⟩ := Trace.outcome_eq_ok_iff.mp (hends enough (Nat.le_refl _))
    have hnone : (trace enough config root document).halt = none :=
      hhalt.resolve_right ((regular_start root hjson).halt_ne_errorLimit hcheck hfree)
    have hwalk : (start root document).walk config root enough 0 =
        ⟨(trace enough config root document).violations, none⟩ :=
      congrArg (Trace.mk (trace enough config root document).violations) hnone
    obtain ⟨inner, h⟩ := Completes.of_walk hwalk
    exact ⟨_, Completes.visit_iff.mpr ⟨inner, h, rfl⟩⟩
  · rintro ⟨frames, h⟩
    obtain ⟨enough, hwalk⟩ := h.walkParts_eq hfree
    refine ⟨enough, fun stack hstack => Trace.outcome_eq_ok_iff.mpr ?_⟩
    have htrace : trace stack config root document = ⟨report.violations, none⟩ := by
      rw [trace_eq_walk, ← walkParts_visit]
      exact hwalk stack hstack 0
    exact ⟨.inl (by rw [htrace]), by rw [htrace]⟩

end SchemaForms
