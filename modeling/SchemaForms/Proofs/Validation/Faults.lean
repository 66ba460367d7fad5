import SchemaForms.Proofs.Validation.Visits

/-!
# What may abort a run on any document

A document need not be JSON: it may hold leaves that no JSON text can express. Under a root that
passes its check every step goes on to checked nodes all the same, and halts for nothing but the
limit on depth and such a leaf (`Part.sound_of_mem_parts`). So nothing that the schema names is found
missing in a run, whatever the document (`abort_of_check`).
-/

namespace SchemaForms

/-- What a step does under a checked node of the root: it records violations, goes on to checked
nodes, or halts at the limit on depth or at a leaf that no JSON text can express. -/
inductive Part.Sound (root : Schema) : Part → Prop
  | report (v : Violation) : Sound root (.report v)
  | visit {f : Frame} (h : root.CheckedNode f.schema) : Sound root (.visit f)
  | tooDeep : Sound root (.halt .tooDeep)
  | notJson (className : String) : Sound root (.halt (.fault (.notJson className)))

/-- Why a run under a root that passes its check is aborted. -/
inductive Abort.Foreseen : Abort → Prop
  | tooDeep (limit : Nat) : Foreseen (.tooDeep limit)
  | stackExhausted : Foreseen .stackExhausted
  | notJson (className : String) : Foreseen (.fault (.notJson className))

namespace Frame

variable {config : Config} {root : Schema} {stack found : Nat} {f g : Frame} {p : Part}

/-- A step under a checked node. -/
theorem sound_of_mem_parts (hcheck : root.check = .ok ()) (hf : root.CheckedNode f.schema)
    (h : p ∈ f.parts config root) : p.Sound root := by
  rcases does_or_meetsLeaf (hf.correct hcheck) h with hdoes | ⟨-, className, rfl⟩
  · cases hdoes with
    | enters henters => exact .visit (henters.checkedNode hf)
    | rejects _ => exact .report _
    | tooDeep _ _ => exact .tooDeep
  · exact .notJson className

/-- A step under a checked node only gets to frames that its keywords and its value name. -/
theorem enters_of_goes (hcheck : root.check = .ok ()) (hf : root.CheckedNode f.schema)
    (h : Goes config root f g) : f.resolved.Enters config root g := by
  rcases does_or_meetsLeaf (hf.correct hcheck) h with hdoes | ⟨-, _, hhalt⟩
  · cases hdoes with
    | enters henters => exact henters
  · cases hhalt

/-- A run from a checked node only gets to checked nodes. -/
theorem checkedNode_of_visits (hcheck : root.check = .ok ()) (hf : root.CheckedNode f.schema)
    (h : Visits config root f g) : root.CheckedNode g.schema := by
  induction h with
  | refl => exact hf
  | tail _ hgoes ih => exact (enters_of_goes hcheck ih hgoes).checkedNode ih

end Frame

/-- **What aborts a run under a root that passes its check** is the limit on depth, the stack, or a
leaf that no JSON text can express. -/
theorem abort_of_check {config : Config} {root : Schema} {document : Value} {stack : Nat}
    {abort : Abort} (hcheck : root.check = .ok ())
    (h : (trace stack config root document).outcome config = .error abort) : abort.Foreseen := by
  rw [Trace.outcome] at h
  split at h
  case h_1 => cases h
  case h_2 => cases h
  case h_3 =>
    obtain rfl := Except.error.inj h
    exact .tooDeep _
  case h_4 =>
    obtain rfl := Except.error.inj h
    exact .stackExhausted
  case h_5 cause hhalt =>
    obtain rfl := Except.error.inj h
    rw [Frame.trace_eq_walk] at hhalt
    rcases Frame.exists_visit_of_halt hhalt with hcause | hcause | ⟨g, hvisits, hpart⟩
    · cases hcause
    · cases hcause
    · have hg : root.CheckedNode g.schema := Frame.checkedNode_of_visits hcheck .root hvisits
      cases Frame.sound_of_mem_parts hcheck hg hpart with
      | notJson className => exact .notJson className

end SchemaForms
