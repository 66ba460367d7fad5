import SchemaForms.Proofs.Validation.Depth

/-!
# The outcome of a run

`EndsWith` is the outcome of a run that is given stack enough, and an `Endless` run exhausts every
stack. A run that some stack is enough for has just one outcome (`endsWith_of_halt_ne`,
`EndsWith.unique`). Under a root that passes its check only the limit on depth and the stack abort a
run (`expected_of_outcome_eq_error`).
-/

namespace SchemaForms

variable {config : Config} {root : Schema} {document : Value} {stack : Nat}

open SchemaForms.Frame

/-- An abort that a run under a correct schema may end with. -/
inductive Abort.Expected (config : Config) : Abort → Prop
  | tooDeep (h : config.maxDepth ≠ 0) : Expected config (.tooDeep config.maxDepth)
  | stackExhausted : Expected config .stackExhausted

/-- The outcome of a run that is given stack enough. -/
def EndsWith (config : Config) (root : Schema) (document : Value)
    (outcome : Except Abort Report) : Prop :=
  ∃ enough, ∀ stack, enough ≤ stack → (trace stack config root document).outcome config = outcome

/-- The run exhausts every stack. -/
def Endless (config : Config) (root : Schema) (document : Value) : Prop :=
  ∀ stack, (trace stack config root document).outcome config = .error .stackExhausted

/-- A run that does not exhaust some stack ends as it does with that stack. -/
theorem endsWith_of_halt_ne
    (h : (trace stack config root document).halt ≠ some .stackExhausted) :
    EndsWith config root document ((trace stack config root document).outcome config) := by
  refine ⟨stack, fun more hmore => ?_⟩
  rw [trace_eq_of_le hmore h]

theorem EndsWith.unique {outcome outcome' : Except Abort Report}
    (h : EndsWith config root document outcome) (h' : EndsWith config root document outcome') :
    outcome = outcome' := by
  obtain ⟨enough, h⟩ := h
  obtain ⟨enough', h'⟩ := h'
  exact (h _ (Nat.le_max_left enough enough')).symm.trans (h' _ (Nat.le_max_right enough enough'))

/-- The aborts of a run under a root that passes its check. -/
theorem expected_of_outcome_eq_error {abort : Abort} (hcheck : root.check = .ok ())
    (hjson : document.isJson)
    (h : (trace stack config root document).outcome config = .error abort) :
    abort.Expected config := by
  have hstart := regular_start root hjson
  rw [trace_eq_walk, Trace.outcome] at h
  split at h
  case h_1 => cases h
  case h_2 => cases h
  case h_3 hhalt =>
    obtain rfl := Except.error.inj h
    rcases hstart.cause_of_halt hcheck hhalt with hcause | hcause | ⟨_, g, hvisits, _, hdepth⟩
    · cases hcause
    · cases hcause
    · have hone : 1 ≤ g.location.depth := hstart.depth_le hcheck hvisits
      exact .tooDeep (by omega)
  case h_4 =>
    obtain rfl := Except.error.inj h
    exact .stackExhausted
  case h_5 fault hhalt =>
    rcases hstart.cause_of_halt hcheck hhalt with hcause | hcause | ⟨hcause, _⟩
    · cases hcause
    · cases hcause
    · cases hcause

/-- A run without a limit on depth that comes to an end ends with a report. -/
theorem exists_report_of_not_endless (hcheck : root.check = .ok ()) (hjson : document.isJson)
    (hfree : config.maxDepth = 0) (h : ¬ Endless config root document) :
    ∃ report, EndsWith config root document (.ok report) := by
  obtain ⟨stack, hne⟩ := not_forall.mp h
  rw [Trace.outcome_eq_stackExhausted_iff] at hne
  have hends := endsWith_of_halt_ne hne
  cases houtcome : (trace stack config root document).outcome config with
  | ok report => exact ⟨report, houtcome ▸ hends⟩
  | error abort =>
    cases expected_of_outcome_eq_error hcheck hjson houtcome with
    | tooDeep hlimit => exact absurd hfree hlimit
    | stackExhausted => exact absurd (Trace.outcome_eq_stackExhausted_iff.mp houtcome) hne

end SchemaForms
