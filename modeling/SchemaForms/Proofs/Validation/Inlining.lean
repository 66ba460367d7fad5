import SchemaForms.Proofs.Schema.Inlined
import SchemaForms.Proofs.Validation.Beside

/-!
# Following a reference

A reference judges a value as the definition that it names does. If one reference gives way to the
body of its definition (`Schema.InlinesOnce`), the walks under both roots find violations at the
same places: their frames are related by `Frame.Inlined`, and a step either does the same on both
sides or follows the reference that the other root does without (`Inlined.step`). As a definition
may be recursive, and the reference inside it, each of the walks is tracked by the other one with
stack enough (`Inlined.tracks`, `Inlined.tracked`) and not step by step.
-/

namespace SchemaForms

open SchemaForms.Frame

/-- Violations at the same places of a document, in the same order. -/
def SamePlaces (found found' : List Violation) : Prop :=
  found.map (·.instancePath) = found'.map (·.instancePath)

theorem SamePlaces.length_eq {found found' : List Violation} (h : SamePlaces found found') :
    found.length = found'.length := by
  have hlength := congrArg List.length h
  rwa [List.length_map, List.length_map] at hlength

theorem SamePlaces.append {a a' b b' : List Violation} (h : SamePlaces a a')
    (h' : SamePlaces b b') : SamePlaces (a ++ b) (a' ++ b') := by
  rw [SamePlaces, List.map_append, List.map_append, h, h']

/-! ## Walks that track each other -/

/-- Two traces with violations at the same places and with the same end. -/
structure Trace.SameCourse (t t' : Trace) : Prop where
  places : SamePlaces t.violations t'.violations
  halt : t.halt = t'.halt

/-- The second walk takes the course of the first one, unless the first one exhausts its stack. -/
def Walk.Tracks (w w' : Walk) : Prop :=
  ∀ found, (w found).halt ≠ some .stackExhausted → (w found).SameCourse (w' found)

namespace Walk.Tracks

variable {first first' second second' : Walk}

theorem refl (w : Walk) : Tracks w w := fun _ _ => ⟨rfl, rfl⟩

theorem halt (w : Walk) : Tracks (halt .stackExhausted) w := fun _ h => absurd rfl h

theorem report (limit : Nat) {v v' : Violation} (h : SamePlaces [v] [v']) :
    Tracks (report limit v) (report limit v') :=
  fun _ _ => ⟨h, rfl⟩

theorem andThen (hfirst : Tracks first first') (hsecond : Tracks second second') :
    Tracks (first.andThen second) (first'.andThen second') := by
  intro found h
  cases hend : (first found).halt with
  | some cause =>
    rw [andThen_of_halt hend] at h ⊢
    have hcourse := hfirst found h
    rw [andThen_of_halt (hcourse.halt ▸ hend)]
    exact hcourse
  | none =>
    have hcourse := hfirst found (by simp [hend])
    rw [andThen_of_end hend] at h ⊢
    -- As many violations were found by the first walks, so the second ones start at one count.
    rw [andThen_of_end (hcourse.halt ▸ hend), ← hcourse.places.length_eq]
    have hrest := hsecond _ h
    exact ⟨hcourse.places.append hrest.places, hrest.halt⟩

theorem compositional : Compositional Tracks := ⟨refl done, andThen⟩

end Walk.Tracks

variable {config : Config} {root root' : Schema} {stack stack' : Nat}

/-- Parts that match are tracked if the walks from the frames among them are. -/
theorem walkParts_tracks {R : Frame → Frame → Prop} {parts parts' : List Part}
    (h : List.Forall₂ (Part.Matches R SamePlaces) parts parts')
    (hvisit : ∀ f g, R f g → Walk.Tracks (f.walk config root stack) (g.walk config root' stack')) :
    Walk.Tracks (walkParts config root stack parts) (walkParts config root' stack' parts') :=
  walkParts_of_matches Walk.Tracks.compositional h (fun _ _ => .report _) (fun _ => .refl _) hvisit

/-! ## Frames under both roots -/

/-- The locations of one place in a document. The depth counts references and need not be the same,
but it is never the depth of no limit. -/
structure SamePlace (l m : Location) : Prop where
  path : l.instancePath = m.instancePath
  left : 0 < l.depth
  right : 0 < m.depth

theorem samePlace_kept : LocationsKept SamePlace SamePlaces where
  under h _ := ⟨h.path, h.left, h.right⟩
  enter token h _ := ⟨congrArg (· ++ [token]) h.path, h.left, h.right⟩
  follow _ h := ⟨h.path, Nat.succ_pos _, Nat.succ_pos _⟩
  violation h := congrArg (fun path => [path]) h.path

namespace Frame

variable {f g : Frame}

/-- A frame of the walk under the first root, and what becomes of it under the second one. -/
structure Inlined (root root' : Schema) (f g : Frame) : Prop where
  beside : Beside SamePlace (Schema.InPlace (entries root.definitions)) f g
  left : Regular root f
  right : Regular root' g
  /-- A reference may give way to its definition because no tag applies to it: a schema under a tag
  is no reference. -/
  untagged : f.schema.ref ≠ none → f.tag = none

theorem Enters.untagged (hc : f.schema.Correct (keys root.definitions))
    (h : f.Enters config root g) : g.schema.ref ≠ none → g.tag = none := by
  cases h with
  | @tagged tag text _ target _ h _ _ htarget =>
    intro href
    have hform := (hc.tagged tag _ h text target (mem_of_lookup htarget)).2.1 .ref
      (Option.ne_none_iff_exists'.mp href)
    cases hform
  | _ => exact fun _ => rfl

namespace Inlined

/-- Frames whose rules are alike do the same step. -/
theorem parts (h : Inlined root root' f g) (hinlines : root.InlinesOnce root')
    (hcheck : root.check = .ok ()) (hfree : config.maxDepth = 0)
    (hrule : f.schema.rule.Alike (Schema.Kept (entries root.definitions)) g.schema.rule) :
    List.Forall₂ (Part.Matches (Inlined root root') SamePlaces)
      (f.parts config root) (g.parts config root') := by
  obtain ⟨hbeside, hf, hg, -⟩ := h
  have hcheck' : root'.check = .ok () := hinlines.check hcheck
  have hlocation := hbeside.location
  have hdepth : config.maxDepth = f.location.depth ↔ config.maxDepth = g.location.depth := by
    have := hlocation.left
    have := hlocation.right
    omega
  have hparts := hbeside.parts samePlace_kept hrule hf.json fun name _ =>
    hbeside.refParts samePlace_kept hinlines.definitions hdepth name
  refine forall₂_imp_of_mem hparts fun p hp q hq hpq => hpq.imp ?_
  rintro f' g' rfl rfl ⟨hlocation', htag', hkept, hvalue'⟩
  have hf' := hf.enters_of_goes hcheck hp
  have hg' := hg.enters_of_goes hcheck' hq
  exact ⟨⟨hlocation', htag', hkept.inPlace, hvalue'⟩, hf.of_enters hf', hg.of_enters hg',
    hf'.untagged (hf.correct hcheck)⟩

/-- **A step does the same under both roots**, or it follows the reference that the second root does
without, and the next one does the same. -/
theorem step (h : Inlined root root' f g) (hinlines : root.InlinesOnce root')
    (hcheck : root.check = .ok ()) (hfree : config.maxDepth = 0) :
    List.Forall₂ (Part.Matches (Inlined root root') SamePlaces)
        (f.parts config root) (g.parts config root') ∨
      ∃ f', f.parts config root = [.visit f'] ∧
        List.Forall₂ (Part.Matches (Inlined root root') SamePlaces)
          (f'.parts config root) (g.parts config root') := by
  rcases h.beside.schema with hrule | ⟨name, body, href, hbody, hrule⟩
  · exact .inl (h.parts hinlines hcheck hfree hrule)
  obtain ⟨hlocation, htag, -, hvalue⟩ := h.beside
  have hf := h.left
  have hdepth : config.maxDepth ≠ f.location.depth := by
    have := hlocation.left
    omega
  have hparts : f.parts config root = [.visit (f.follow name body)] :=
    parts_eq_follow (hf.correct hcheck).sole hf.json href hbody hdepth
  -- Behind the reference the frame demands just what the other one does.
  have halike : body.rule.Alike (Schema.Kept (entries root.definitions)) g.schema.rule :=
    hrule ▸ .refl Schema.Kept.refl _
  have hnone : f.tag = none := h.untagged (by rw [href]; exact Option.some_ne_none _)
  have hfollow : Inlined root root' (f.follow name body) g := {
    beside := ⟨⟨hlocation.path, Nat.succ_pos _, hlocation.right⟩, hnone.symm.trans htag,
      .inl halike, hvalue⟩
    left := hf.of_enters (.definition href hbody hdepth)
    right := h.right
    untagged := fun _ => rfl }
  exact .inr ⟨_, hparts, hfollow.parts hinlines hcheck hfree halike⟩

/-! ## Whole walks -/

/-- The walk without the reference tracks the one that follows it. -/
theorem tracks (h : Inlined root root' f g) (hinlines : root.InlinesOnce root')
    (hcheck : root.check = .ok ()) (hfree : config.maxDepth = 0) (hle : stack ≤ stack') :
    Walk.Tracks (f.walk config root stack) (g.walk config root' stack') := by
  induction stack using Nat.strong_induction_on generalizing f g stack' with
  | h stack ih =>
    cases stack with
    | zero =>
      rw [walk_zero]
      exact .halt _
    | succ stack =>
      obtain ⟨stack', rfl⟩ : ∃ more, stack' = more + 1 := ⟨stack' - 1, by omega⟩
      rw [walk_succ, walk_succ]
      rcases h.step hinlines hcheck hfree with hparts | ⟨f', hfollow, hparts⟩
      · exact walkParts_tracks hparts fun f g hfg => ih stack (by omega) hfg (by omega)
      · rw [hfollow, walkParts_visit]
        cases stack with
        | zero =>
          rw [walk_zero]
          exact .halt _
        | succ stack =>
          rw [walk_succ]
          exact walkParts_tracks hparts fun f g hfg => ih stack (by omega) hfg (by omega)

/-- The walk that follows the reference tracks the one without it: for each step of that one it
takes two at most. -/
theorem tracked (h : Inlined root root' f g) (hinlines : root.InlinesOnce root')
    (hcheck : root.check = .ok ()) (hfree : config.maxDepth = 0) (hle : 2 * stack' ≤ stack) :
    Walk.Tracks (g.walk config root' stack') (f.walk config root stack) := by
  induction stack' generalizing f g stack with
  | zero =>
    rw [walk_zero]
    exact .halt _
  | succ stack' ih =>
    obtain ⟨stack, rfl⟩ : ∃ more, stack = more + 2 := ⟨stack - 2, by omega⟩
    rw [walk_succ, walk_succ]
    rcases h.step hinlines hcheck hfree with hparts | ⟨f', hfollow, hparts⟩
    · exact walkParts_tracks (Part.Matches.flip_forall₂ hparts (fun _ _ => id) fun _ _ => Eq.symm)
        fun g f hfg => ih hfg (by omega)
    · rw [hfollow, walkParts_visit, walk_succ]
      exact walkParts_tracks (Part.Matches.flip_forall₂ hparts (fun _ _ => id) fun _ _ => Eq.symm)
        fun g f hfg => ih hfg (by omega)

end Inlined

theorem inlined_start {document : Value} (hinlines : root.InlinesOnce root')
    (hjson : document.isJson) :
    Inlined root root' (start root document) (start root' document) where
  beside := ⟨⟨rfl, Nat.one_pos, Nat.one_pos⟩, rfl, hinlines.inPlace, rfl⟩
  left := regular_start root hjson
  right := regular_start root' hjson
  untagged := fun _ => rfl

end Frame

/-! ## Whole runs -/

/-- **Following a reference is judging by the definition in its place.** If one reference of a root
that passes its check, in its tree or in the tree of a definition, gives way to the body of the
definition that it names, the root passes its check again. Without a limit on depth the run under
one of the roots has an end if the run under the other one does, and then the reports blame the same
places of the document in the same order, however many violations were asked for and whether or not
the run is strict. -/
theorem judges_alike_of_inlinesOnce (root root' : Schema) (hcheck : root.check = .ok ())
    (hinlines : root.InlinesOnce root') :
    root'.check = .ok () ∧
      ∀ (config : Config) (document : Value), config.maxDepth = 0 → document.isJson →
        (Endless config root' document ↔ Endless config root document) ∧
        (¬ Endless config root document → ∃ report report',
          EndsWith config root document (.ok report) ∧
          EndsWith config root' document (.ok report') ∧
          report.violations.map (·.instancePath) = report'.violations.map (·.instancePath) ∧
          report.isValid = report'.isValid ∧
          report.violations.length = report'.violations.length) := by
  refine ⟨hinlines.check hcheck, fun config document hfree hjson => ?_⟩
  have hstart := inlined_start hinlines hjson
  have hto : ∀ stack, (trace stack config root document).halt ≠ some .stackExhausted →
      (trace stack config root document).SameCourse (trace stack config root' document) :=
    fun stack => hstart.tracks hinlines hcheck hfree (Nat.le_refl stack) 0
  have hback : ∀ stack, (trace stack config root' document).halt ≠ some .stackExhausted →
      (trace stack config root' document).SameCourse (trace (2 * stack) config root document) :=
    fun stack => hstart.tracked hinlines hcheck hfree (Nat.le_refl _) 0
  refine ⟨⟨fun h' stack => ?forth, fun h stack => ?back⟩, fun hends => ?reports⟩
  case forth =>
    rw [Trace.outcome_eq_stackExhausted_iff]
    by_contra hne
    exact hne ((hto stack hne).halt.trans (Trace.outcome_eq_stackExhausted_iff.mp (h' stack)))
  case back =>
    rw [Trace.outcome_eq_stackExhausted_iff]
    by_contra hne
    exact hne ((hback stack hne).halt.trans
      (Trace.outcome_eq_stackExhausted_iff.mp (h (2 * stack))))
  case reports =>
    obtain ⟨report, enough, hreport⟩ := exists_report_of_not_endless hcheck hjson hfree hends
    obtain ⟨hhalt, rfl⟩ := Trace.outcome_eq_ok_iff.mp (hreport enough (Nat.le_refl _))
    have hne : (trace enough config root document).halt ≠ some .stackExhausted := by
      rcases hhalt with hhalt | hhalt <;> simp [hhalt]
    obtain ⟨hplaces, hsame⟩ := hto enough hne
    have hends' := endsWith_of_halt_ne (hsame ▸ hne)
    rw [Trace.outcome_eq_ok_iff.mpr ⟨hsame ▸ hhalt, rfl⟩] at hends'
    refine ⟨_, _, ⟨enough, hreport⟩, hends', hplaces, ?_, hplaces.length_eq⟩
    rw [Report.isValid, Report.isValid, Bool.eq_iff_iff, List.isEmpty_iff_length_eq_zero,
      List.isEmpty_iff_length_eq_zero, hplaces.length_eq]

/-- A list of four nodes, the second and the last one wrong. The definition put in place of the
reference inside itself changes where the wrong ones are found in the schema, but not where they are
in the list. -/
theorem linkedList_unrolled :
    let unrolled : Schema := { Schema.linkedList with
      definitions := some [("node",
        { properties := some [("item", { type := some "int8" })]
          optionalProperties := some [("next",
            { properties := some [("item", { type := some "int8" })]
              optionalProperties := some [("next", { ref := some "node" })] })] })] }
    let document : Value := .object [("item", .int 1), ("next", .object [("item", .int 300),
      ("next", .object [("item", .int 2), ("next", .object [])])])]
    Schema.linkedList.InlinesOnce unrolled ∧ unrolled.check = .ok () ∧
      ∃ report report', EndsWith ⟨0, 0, true⟩ Schema.linkedList document (.ok report) ∧
        EndsWith ⟨0, 0, true⟩ unrolled document (.ok report') ∧ report ≠ report' ∧
        report.violations.map (·.instancePath) =
          [["next", "item"], ["next", "next", "next"]] ∧
        report.violations.map (·.instancePath) = report'.violations.map (·.instancePath) := by
  intro unrolled document
  have hinlines : Schema.linkedList.InlinesOnce unrolled :=
    @Schema.InlinesOnce.definition _ _ _ [] [] _ rfl
      (@Schema.Inlines.optionalProperties _ _ _ _ [] [] _ rfl (.here rfl rfl))
  obtain ⟨hcheck, hruns⟩ := judges_alike_of_inlinesOnce Schema.linkedList unrolled rfl hinlines
  have hhalt : (trace 9 ⟨0, 0, true⟩ Schema.linkedList document).halt ≠ some .stackExhausted := by
    decide
  have hhalt' : (trace 9 ⟨0, 0, true⟩ unrolled document).halt ≠ some .stackExhausted := by decide
  have hends : ¬ Endless ⟨0, 0, true⟩ Schema.linkedList document := fun hendless =>
    hhalt (Trace.outcome_eq_stackExhausted_iff.mp (hendless 9))
  obtain ⟨report, report', h, h', hplaces, -⟩ := (hruns ⟨0, 0, true⟩ document rfl rfl).2 hends
  have heq := (endsWith_of_halt_ne hhalt).unique h
  have heq' := (endsWith_of_halt_ne hhalt').unique h'
  refine ⟨hinlines, hcheck, report, report', h, h', ?_, ?_, hplaces⟩
  · cases heq
    cases heq'
    decide
  · cases heq
    decide

end SchemaForms
