import SchemaForms.Proofs.Validation.Steps

/-!
# Whole walks

A walk visits the frames that its steps go on to. Each violation of a walk is recorded at a frame
that it visits, and each cause to halt arises at one, the stack and the limit on violations apart
(`exists_visit_of_mem_violations`, `exists_visit_of_halt`). A walk that does not exhaust its stack
does the same with more of it (`walk_agreesUnless_of_le`). Under a root that passes its check, a
walk through a document without foreign leaves only gets to checked nodes (`Regular.of_visits`), so
the steps of such a walk are those of `mem_parts_iff`.
-/

namespace SchemaForms

theorem Trace.outcome_eq_ok_iff {t : Trace} {config : Config} {report : Report} :
    t.outcome config = .ok report ↔
      (t.halt = none ∨ t.halt = some .errorLimit) ∧ report = ⟨t.violations⟩ := by
  rw [Trace.outcome]
  split <;> simp [*, eq_comm]

theorem Trace.outcome_eq_stackExhausted_iff {t : Trace} {config : Config} :
    t.outcome config = .error .stackExhausted ↔ t.halt = some .stackExhausted := by
  rw [Trace.outcome]
  split <;> simp [*]

theorem Trace.outcome_eq_tooDeep_iff {t : Trace} {config : Config} {limit : Nat} :
    t.outcome config = .error (.tooDeep limit) ↔
      t.halt = some .tooDeep ∧ config.maxDepth = limit := by
  rw [Trace.outcome]
  split <;> simp [*]

namespace Frame

open Walk

variable {config : Config} {root : Schema} {stack found : Nat} {f g : Frame}

/-- A step of a walk goes on to the second frame. -/
def Goes (config : Config) (root : Schema) (f g : Frame) : Prop := .visit g ∈ f.parts config root

/-- The frames of a walk from a frame on, those after a halt included. -/
def Visits (config : Config) (root : Schema) : Frame → Frame → Prop :=
  Relation.ReflTransGen (Goes config root)

theorem trace_eq_walk (document : Value) :
    trace stack config root document = (start root document).walk config root stack 0 := rfl

theorem walk_zero (f : Frame) : f.walk config root 0 = Walk.halt .stackExhausted := by
  rw [Frame.walk, SchemaForms.walk]

/-! ## What a walk finds -/

theorem exists_part_of_mem_violations {v : Violation}
    (h : v ∈ (f.walk config root (stack + 1) found).violations) :
    ∃ p ∈ f.parts config root, ∃ n, v ∈ (p.walk config root stack n).violations := by
  rw [walk_succ] at h
  obtain ⟨w, hw, n, h⟩ := mem_violations_inTurn h
  obtain ⟨p, hp, rfl⟩ := List.mem_map.mp hw
  exact ⟨p, hp, n, h⟩

theorem exists_part_of_halt {cause : Halt}
    (h : (f.walk config root (stack + 1) found).halt = some cause) :
    ∃ p ∈ f.parts config root, ∃ n, (p.walk config root stack n).halt = some cause := by
  rw [walk_succ] at h
  obtain ⟨w, hw, n, h⟩ := exists_halt_inTurn h
  obtain ⟨p, hp, rfl⟩ := List.mem_map.mp hw
  exact ⟨p, hp, n, h⟩

theorem exists_visit_of_mem_violations {v : Violation}
    (h : v ∈ (f.walk config root stack found).violations) :
    ∃ g, Visits config root f g ∧ .report v ∈ g.parts config root := by
  induction stack generalizing f found with
  | zero =>
    rw [walk_zero] at h
    cases h
  | succ stack ih =>
    obtain ⟨p, hp, n, h⟩ := exists_part_of_mem_violations h
    cases p with
    | report v' =>
      obtain rfl : v = v' := List.mem_singleton.mp h
      exact ⟨f, .refl, hp⟩
    | halt cause => cases h
    | visit g =>
      obtain ⟨g', hvisits, hreport⟩ := ih h
      exact ⟨g', .head hp hvisits, hreport⟩

theorem exists_visit_of_halt {cause : Halt}
    (h : (f.walk config root stack found).halt = some cause) :
    cause = .stackExhausted ∨ cause = .errorLimit ∨
      ∃ g, Visits config root f g ∧ .halt cause ∈ g.parts config root := by
  induction stack generalizing f found with
  | zero =>
    rw [walk_zero] at h
    exact .inl (Option.some.inj h).symm
  | succ stack ih =>
    obtain ⟨p, hp, n, h⟩ := exists_part_of_halt h
    cases p with
    | report v => exact .inr (.inl (eq_errorLimit_of_report h))
    | halt c =>
      obtain rfl : c = cause := Option.some.inj h
      exact .inr (.inr ⟨f, .refl, hp⟩)
    | visit g =>
      refine (ih h).imp id (Or.imp id ?_)
      rintro ⟨g', hvisits, hhalt⟩
      exact ⟨g', .head hp hvisits, hhalt⟩

theorem walk_countsLimit
    (hhalt : ∀ g, Visits config root f g → .halt .errorLimit ∉ g.parts config root) :
    (f.walk config root stack).CountsLimit := by
  induction stack generalizing f with
  | zero =>
    rw [walk_zero]
    exact fun _ h => by cases h
  | succ stack ih =>
    rw [walk_succ]
    refine CountsLimit.inTurn fun w hw => ?_
    obtain ⟨p, hp, rfl⟩ := List.mem_map.mp hw
    cases p with
    | report v => exact fun _ _ => List.cons_ne_nil _ _
    | halt cause =>
      intro _ h
      obtain rfl : cause = .errorLimit := Option.some.inj h
      exact absurd hp (hhalt f .refl)
    | visit g => exact ih fun g' hvisits => hhalt g' (.head hp hvisits)

/-! ## More stack -/

theorem part_agreesUnless {cause : Halt} {config' : Config} {stack' : Nat} {p : Part}
    (herrors : config.maxErrors = config'.maxErrors)
    (h : ∀ g, p = .visit g →
      AgreesUnless cause (g.walk config root stack) (g.walk config' root stack')) :
    AgreesUnless cause (p.walk config root stack) (p.walk config' root stack') := by
  cases p with
  | report v =>
    rw [Part.walk, Part.walk, herrors]
    exact .refl _
  | halt cause => exact .refl _
  | visit g => exact h g rfl

/-- Parts in turn agree up to a halt if the walks from the frames among them do. -/
theorem walkParts_agreesUnless {cause : Halt} {config' : Config} {stack' : Nat} {parts : List Part}
    (herrors : config.maxErrors = config'.maxErrors)
    (h : ∀ g, .visit g ∈ parts →
      AgreesUnless cause (g.walk config root stack) (g.walk config' root stack')) :
    AgreesUnless cause (walkParts config root stack parts)
      (walkParts config' root stack' parts) :=
  walkParts_rel (AgreesUnless.compositional cause) fun _ hp =>
    part_agreesUnless herrors fun g hg => h g (hg ▸ hp)

theorem walk_agreesUnless_of_le {more : Nat} (h : stack ≤ more) :
    AgreesUnless .stackExhausted (f.walk config root stack) (f.walk config root more) := by
  induction stack generalizing f more with
  | zero =>
    rw [walk_zero]
    exact .halt _
  | succ stack ih =>
    obtain ⟨more, rfl⟩ : ∃ m, more = m + 1 := ⟨more - 1, by omega⟩
    rw [walk_succ, walk_succ]
    exact walkParts_agreesUnless rfl fun g _ => ih (by omega)

theorem walkParts_agreesUnless_of_le {more : Nat} (h : stack ≤ more) (parts : List Part) :
    AgreesUnless .stackExhausted (walkParts config root stack parts)
      (walkParts config root more parts) :=
  walkParts_agreesUnless rfl fun _ _ => walk_agreesUnless_of_le h

/-- Two stacks that parts do not exhaust are as good as each other. -/
theorem walkParts_eq_of_halt_ne {stack' : Nat} {parts : List Part}
    (h : (walkParts config root stack parts found).halt ≠ some .stackExhausted)
    (h' : (walkParts config root stack' parts found).halt ≠ some .stackExhausted) :
    walkParts config root stack parts found = walkParts config root stack' parts found :=
  (walkParts_agreesUnless_of_le (Nat.le_max_left stack stack') parts found h).symm.trans
    (walkParts_agreesUnless_of_le (Nat.le_max_right stack stack') parts found h')

/-- A walk that does not exhaust its stack does the same with more of it. -/
theorem walk_eq_of_le {more : Nat} (h : stack ≤ more)
    (hend : (f.walk config root stack found).halt ≠ some .stackExhausted) :
    f.walk config root more found = f.walk config root stack found :=
  walk_agreesUnless_of_le h found hend

theorem trace_eq_of_le {document : Value} {more : Nat} (h : stack ≤ more)
    (hend : (trace stack config root document).halt ≠ some .stackExhausted) :
    trace more config root document = trace stack config root document :=
  walk_eq_of_le (f := start root document) h hend

/-! ## Checked nodes -/

/-- The frame judges a value without foreign leaves by a checked node of the root. -/
structure Regular (root : Schema) (f : Frame) : Prop where
  checked : root.CheckedNode f.schema
  json : f.value.isJson

theorem regular_start (root : Schema) {document : Value} (hjson : document.isJson) :
    Regular root (start root document) :=
  ⟨.root, hjson⟩

theorem Regular.correct (hcheck : root.check = .ok ()) (hf : Regular root f) :
    f.schema.Correct (keys root.definitions) :=
  hf.checked.correct hcheck

theorem Regular.mem_parts_iff {p : Part} (hcheck : root.check = .ok ()) (hf : Regular root f) :
    p ∈ f.parts config root ↔ f.Does config root p :=
  Frame.mem_parts_iff (hf.correct hcheck) hf.json

/-- A step goes to a child of the node, or to the definition that the node refers to. -/
theorem Enters.child_or_follow (h : f.Enters config root g) :
    g.location.depth = f.location.depth ∧ Schema.Child f.schema g.schema ∨
      ∃ name target, f.schema.ref = some name ∧
        (entries root.definitions).lookup name = some target ∧
        config.maxDepth ≠ f.location.depth ∧ g = f.follow name target := by
  cases h with
  | definition h htarget hdepth => exact .inr ⟨_, _, h, htarget, hdepth, rfl⟩
  | item h _ _ => exact .inl ⟨rfl, .elements h⟩
  | required h _ _ =>
    obtain ⟨map, hmap, hsub⟩ := mem_entries.mp h
    exact .inl ⟨rfl, .required hmap hsub⟩
  | optional h _ _ =>
    obtain ⟨map, hmap, hsub⟩ := mem_entries.mp h
    exact .inl ⟨rfl, .optional hmap hsub⟩
  | member h _ _ => exact .inl ⟨rfl, .values h⟩
  | tagged h _ _ htarget => exact .inl ⟨rfl, .tagged h (mem_of_lookup htarget)⟩

theorem Enters.isJson (h : f.Enters config root g) (hv : f.value.isJson) : g.value.isJson := by
  cases h with
  | definition _ _ _ => exact hv
  | item _ hvalue hx =>
    rw [hvalue] at hv
    exact isJson_array_iff.mp hv _ (List.mem_of_getElem? hx)
  | required _ hvalue hx =>
    rw [hvalue] at hv
    exact isJson_object_iff.mp hv _ _ (mem_of_lookup hx)
  | optional _ hvalue hx =>
    rw [hvalue] at hv
    exact isJson_object_iff.mp hv _ _ (mem_of_lookup hx)
  | member _ hvalue hx =>
    rw [hvalue] at hv
    exact isJson_object_iff.mp hv _ _ hx
  | tagged _ _ _ _ => exact hv

theorem Enters.checkedNode (h : f.Enters config root g) (hf : root.CheckedNode f.schema) :
    root.CheckedNode g.schema := by
  rcases h.child_or_follow with ⟨_, hchild⟩ | ⟨name, target, _, htarget, _, rfl⟩
  · exact hf.child hchild
  · exact .definition (mem_of_lookup htarget)

theorem Regular.of_enters (hf : Regular root f) (h : f.Enters config root g) : Regular root g :=
  ⟨h.checkedNode hf.checked, h.isJson hf.json⟩

theorem Regular.enters_of_goes (hcheck : root.check = .ok ()) (hf : Regular root f)
    (h : Goes config root f g) : f.Enters config root g := by
  cases (hf.mem_parts_iff hcheck).mp h with
  | enters h => exact h

theorem Regular.of_visits (hcheck : root.check = .ok ()) (hf : Regular root f)
    (h : Visits config root f g) : Regular root g := by
  induction h with
  | refl => exact hf
  | tail _ hstep ih => exact ih.of_enters (ih.enters_of_goes hcheck hstep)

/-- What may halt a regular walk. -/
theorem Regular.cause_of_halt {cause : Halt} (hcheck : root.check = .ok ()) (hf : Regular root f)
    (h : (f.walk config root stack found).halt = some cause) :
    cause = .stackExhausted ∨ cause = .errorLimit ∨
      cause = .tooDeep ∧ ∃ g, Visits config root f g ∧ (∃ name, g.schema.ref = some name) ∧
        config.maxDepth = g.location.depth := by
  refine (exists_visit_of_halt h).imp id (Or.imp id ?_)
  rintro ⟨g, hvisits, hpart⟩
  cases ((hf.of_visits hcheck hvisits).mem_parts_iff hcheck).mp hpart with
  | @tooDeep name href hdepth => exact ⟨rfl, g, hvisits, ⟨name, href⟩, hdepth⟩

/-- A regular walk does not halt for the limit on violations before it found one. -/
theorem Regular.countsLimit (hcheck : root.check = .ok ()) (hf : Regular root f) :
    (f.walk config root stack).CountsLimit := by
  refine walk_countsLimit fun g hvisits h => ?_
  cases ((hf.of_visits hcheck hvisits).mem_parts_iff hcheck).mp h

/-- A run with a valid report found nothing up to its end. -/
theorem trace_eq_clean_of_isValid {document : Value} {report : Report}
    (hcheck : root.check = .ok ()) (hjson : document.isJson)
    (h : (trace stack config root document).outcome config = .ok report)
    (hvalid : report.isValid = true) : trace stack config root document = ⟨[], none⟩ := by
  obtain ⟨hhalt, rfl⟩ := Trace.outcome_eq_ok_iff.mp h
  have hnil := List.isEmpty_iff.mp hvalid
  rcases hhalt with hend | hlimit
  · exact congrArg₂ Trace.mk hnil hend
  · exact absurd hnil ((regular_start root hjson).countsLimit hcheck 0 hlimit)

end Frame

end SchemaForms
