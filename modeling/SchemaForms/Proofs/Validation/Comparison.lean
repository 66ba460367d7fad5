import SchemaForms.Proofs.Validation.Completion
import SchemaForms.Proofs.Validation.Ending

/-!
# Two runs compared

`EndsAlike` are two runs of which both return a report, both are aborted at the limit on depth, or
neither ends. It is enough to look at the reports (`endsAlike_of_reports`): what else may happen to
a run is settled by whether it has a limit on depth. Reports are compared by a simulation between
the frames of the two walks (`Completes.simulate`), and parts in another order complete with the
same violations in another order (`Completes.perm`).
-/

namespace SchemaForms

open SchemaForms.Frame

/-- Two runs end in the same way, and with related reports where they return. -/
inductive EndsAlike (related : Report → Report → Prop) (config : Config) (root : Schema)
    (document : Value) (config' : Config) (root' : Schema) (document' : Value) : Prop
  | reports {report report' : Report} (h : EndsWith config root document (.ok report))
      (h' : EndsWith config' root' document' (.ok report')) (hrelated : related report report')
  | tooDeep (h : EndsWith config root document (.error (.tooDeep config.maxDepth)))
      (h' : EndsWith config' root' document' (.error (.tooDeep config'.maxDepth)))
  | endless (h : Endless config root document) (h' : Endless config' root' document')

variable {config config' : Config} {root root' : Schema} {document document' : Value}
  {parts parts' : List Part} {violations : List Violation} {frames : List Frame}

/-! ## Runs without a report -/

theorem endless_of_forall_not_report (hcheck : root.check = .ok ()) (hjson : document.isJson)
    (hdepth : config.maxDepth = 0)
    (h : ∀ report, ¬ EndsWith config root document (.ok report)) :
    Endless config root document := by
  by_contra hends
  obtain ⟨report, hreport⟩ := exists_report_of_not_endless hcheck hjson hdepth hends
  exact h report hreport

theorem endsWith_tooDeep_of_forall_not_report (hcheck : root.check = .ok ())
    (hjson : document.isJson) (hdepth : config.maxDepth ≠ 0)
    (h : ∀ report, ¬ EndsWith config root document (.ok report)) :
    EndsWith config root document (.error (.tooDeep config.maxDepth)) := by
  have hnot : ¬ Endless config root document := fun hendless =>
    hdepth (maxDepth_eq_zero_of_endless hcheck hjson hendless)
  obtain ⟨stack, hne⟩ := not_forall.mp hnot
  rw [Trace.outcome_eq_stackExhausted_iff] at hne
  have hends := endsWith_of_halt_ne hne
  cases houtcome : (trace stack config root document).outcome config with
  | ok report => exact absurd (houtcome ▸ hends) (h report)
  | error abort =>
    cases expected_of_outcome_eq_error hcheck hjson houtcome with
    | tooDeep _ => exact houtcome ▸ hends
    | stackExhausted => exact absurd (Trace.outcome_eq_stackExhausted_iff.mp houtcome) hne

/-- Two runs under one limit on depth end alike when each of them returns where the other does. -/
theorem endsAlike_of_reports {related : Report → Report → Prop} (hcheck : root.check = .ok ())
    (hjson : document.isJson) (hcheck' : root'.check = .ok ()) (hjson' : document'.isJson)
    (hdepth : config'.maxDepth = config.maxDepth)
    (hto : ∀ report, EndsWith config root document (.ok report) →
      ∃ report', EndsWith config' root' document' (.ok report') ∧ related report report')
    (hback : ∀ report', EndsWith config' root' document' (.ok report') →
      ∃ report, EndsWith config root document (.ok report)) :
    EndsAlike related config root document config' root' document' := by
  by_cases hreport : ∃ report, EndsWith config root document (.ok report)
  · obtain ⟨report, h⟩ := hreport
    obtain ⟨report', h', hrelated⟩ := hto report h
    exact .reports h h' hrelated
  have hnone : ∀ report, ¬ EndsWith config root document (.ok report) := not_exists.mp hreport
  have hnone' : ∀ report', ¬ EndsWith config' root' document' (.ok report') :=
    fun report' h' => hreport (hback report' h')
  by_cases hzero : config.maxDepth = 0
  · exact .endless (endless_of_forall_not_report hcheck hjson hzero hnone)
      (endless_of_forall_not_report hcheck' hjson' (hdepth.trans hzero) hnone')
  · exact .tooDeep (endsWith_tooDeep_of_forall_not_report hcheck hjson hzero hnone)
      (endsWith_tooDeep_of_forall_not_report hcheck' hjson' (hdepth ▸ hzero) hnone')

/-! ## Walks that complete -/

namespace Completes

/-- The parts in another order complete with the violations in another order. -/
theorem perm (h : Completes config root parts violations frames) (hperm : parts.Perm parts') :
    ∃ violations' frames', Completes config root parts' violations' frames' ∧
      violations.Perm violations' := by
  induction hperm generalizing violations frames with
  | nil => exact ⟨_, _, h, .refl _⟩
  | cons p _ ih =>
    cases h with
    | report h =>
      obtain ⟨_, _, h', hv⟩ := ih h
      exact ⟨_, _, .report h', hv.cons _⟩
    | visit hf h =>
      obtain ⟨_, _, h', hv⟩ := ih h
      exact ⟨_, _, .visit hf h', hv.append_left _⟩
  | swap p q rest =>
    -- The violations of the first two parts change places.
    obtain ⟨first, _, others, _, hfirst, hothers, rfl, rfl⟩ :=
      append_iff.mp (show Completes config root ([q] ++ (p :: rest)) violations frames from h)
    obtain ⟨second, _, more, _, hsecond, hmore, rfl, rfl⟩ :=
      append_iff.mp (show Completes config root ([p] ++ rest) others _ from hothers)
    refine ⟨second ++ (first ++ more), _, hsecond.append (hfirst.append hmore), ?_⟩
    rw [← List.append_assoc, ← List.append_assoc]
    exact List.perm_append_comm.append_right _
  | trans _ _ ih ih' =>
    obtain ⟨_, _, h, hv⟩ := ih h
    obtain ⟨_, _, h', hv'⟩ := ih' h
    exact ⟨_, _, h', hv.trans hv'⟩

end Completes

/-- A relation between lists of violations that goes over to lists one behind the other. -/
structure AppendClosed (Q : List Violation → List Violation → Prop) : Prop where
  nil : Q [] []
  append : ∀ {a a' b b' : List Violation}, Q a a' → Q b b' → Q (a ++ b) (a' ++ b')

theorem AppendClosed.flip {Q : List Violation → List Violation → Prop} (hQ : AppendClosed Q) :
    AppendClosed fun b a => Q a b :=
  ⟨hQ.nil, fun h h' => hQ.append h h'⟩

/-- Two parts do the same: they record related violations, halt for one cause, or visit related
frames. -/
inductive Part.Matches (R : Frame → Frame → Prop) (Q : List Violation → List Violation → Prop) :
    Part → Part → Prop
  | report {v w : Violation} (h : Q [v] [w]) : Matches R Q (.report v) (.report w)
  | halt (cause : Halt) : Matches R Q (.halt cause) (.halt cause)
  | visit {f g : Frame} (h : R f g) : Matches R Q (.visit f) (.visit g)

theorem Part.Matches.imp {R S : Frame → Frame → Prop} {Q : List Violation → List Violation → Prop}
    {p q : Part} (h : p.Matches R Q q)
    (himp : ∀ f g, p = .visit f → q = .visit g → R f g → S f g) : p.Matches S Q q := by
  cases h with
  | report h => exact .report h
  | halt cause => exact .halt cause
  | visit h => exact .visit (himp _ _ rfl rfl h)

theorem Part.Matches.flip {R S : Frame → Frame → Prop}
    {Q P : List Violation → List Violation → Prop} {p q : Part} (h : p.Matches R Q q)
    (hframes : ∀ f g, R f g → S g f) (hviolations : ∀ v w, Q [v] [w] → P [w] [v]) :
    q.Matches S P p := by
  cases h with
  | report h => exact .report (hviolations _ _ h)
  | halt cause => exact .halt cause
  | visit h => exact .visit (hframes _ _ h)

theorem Part.Matches.flip_forall₂ {R S : Frame → Frame → Prop}
    {Q P : List Violation → List Violation → Prop}
    (h : List.Forall₂ (Part.Matches R Q) parts parts')
    (hframes : ∀ f g, R f g → S g f) (hviolations : ∀ v w, Q [v] [w] → P [w] [v]) :
    List.Forall₂ (Part.Matches S P) parts' parts :=
  List.Forall₂.flip (h.imp fun _ _ hpq => hpq.flip hframes hviolations)

/-- A compositional relation goes over to the walks of parts that match, in turn, if it holds where
these record a violation or halt, and between the walks from the frames among them. -/
theorem walkParts_of_matches {W : Walk → Walk → Prop} {R : Frame → Frame → Prop}
    {Q : List Violation → List Violation → Prop} {stack stack' : Nat} (hW : Walk.Compositional W)
    (h : List.Forall₂ (Part.Matches R Q) parts parts')
    (hreport : ∀ v w, Q [v] [w] →
      W (Walk.report config.maxErrors v) (Walk.report config'.maxErrors w))
    (hhalt : ∀ cause, W (Walk.halt cause) (Walk.halt cause))
    (hvisit : ∀ f g, R f g → W (f.walk config root stack) (g.walk config' root' stack')) :
    W (walkParts config root stack parts) (walkParts config' root' stack' parts') := by
  refine hW.inTurn ?_
  rw [List.forall₂_map_left_iff, List.forall₂_map_right_iff]
  refine h.imp fun p q hpq => ?_
  cases hpq with
  | report hvw => exact hreport _ _ hvw
  | halt cause => exact hhalt cause
  | visit hfg => exact hvisit _ _ hfg

/-- The second parts complete wherever the first ones do, with related violations. -/
def Completes.Carries (Q : List Violation → List Violation → Prop) (config : Config)
    (root : Schema) (parts : List Part) (config' : Config) (root' : Schema)
    (parts' : List Part) : Prop :=
  ∀ violations frames, Completes config root parts violations frames →
    ∃ violations' frames', Completes config' root' parts' violations' frames' ∧
      Q violations violations'

/-- **A simulation between frames carries a whole walk over.** The parts of a step are matched one
by one, and what matches them need not be the parts of the related frame as long as those record
the same up to the relation. -/
theorem Completes.simulate {R : Frame → Frame → Prop} {Q : List Violation → List Violation → Prop}
    (hQ : AppendClosed Q)
    (hstep : ∀ f g, R f g → (∀ cause, .halt cause ∉ f.parts config root) →
      ∃ middle, List.Forall₂ (Part.Matches R Q) (f.parts config root) middle ∧
        ∀ violations, Carries (fun found found' => Q violations found → Q violations found')
          config' root' middle config' root' (g.parts config' root'))
    (hparts : List.Forall₂ (Part.Matches R Q) parts parts') :
    Carries Q config root parts config' root' parts' := by
  intro violations frames h
  induction h generalizing parts' with
  | nil =>
    cases hparts
    exact ⟨_, _, .nil, hQ.nil⟩
  | report _ ih =>
    cases hparts with
    | cons hp hrest =>
      cases hp with
      | report hv =>
        obtain ⟨_, _, h', hvs⟩ := ih hrest
        exact ⟨_, _, .report h', hQ.append hv hvs⟩
  | visit hf _ ihf ih =>
    cases hparts with
    | cons hp hrest =>
      cases hp with
      | visit hfg =>
        obtain ⟨middle, hmatches, hcarries⟩ := hstep _ _ hfg hf.halt_not_mem
        obtain ⟨_, _, hmiddle, hvs⟩ := ihf hmatches
        obtain ⟨_, _, hg, hcarried⟩ := hcarries _ _ _ hmiddle
        obtain ⟨_, _, h', hmore⟩ := ih hrest
        exact ⟨_, _, .visit hg h', hQ.append (hcarried hvs) hmore⟩

/-- Where the parts of related frames match in their order, the walks complete alike. -/
theorem Completes.simulate_forall₂ {R : Frame → Frame → Prop}
    {Q : List Violation → List Violation → Prop} (hQ : AppendClosed Q)
    (hstep : ∀ f g, R f g →
      List.Forall₂ (Part.Matches R Q) (f.parts config root) (g.parts config' root'))
    (hparts : List.Forall₂ (Part.Matches R Q) parts parts') :
    Carries Q config root parts config' root' parts' ∧
      Carries (fun b a => Q a b) config' root' parts' config root parts := by
  constructor
  · exact simulate hQ (fun f g hfg _ =>
      ⟨_, hstep f g hfg, fun _ found frames h => ⟨found, frames, h, id⟩⟩) hparts
  · refine simulate hQ.flip (R := fun g f => R f g) (fun g f hfg _ => ?_)
      (Part.Matches.flip_forall₂ hparts (fun _ _ => id) fun _ _ => id)
    exact ⟨_, Part.Matches.flip_forall₂ (hstep f g hfg) (fun _ _ => id) fun _ _ => id,
      fun _ found frames h => ⟨found, frames, h, id⟩⟩

end SchemaForms
