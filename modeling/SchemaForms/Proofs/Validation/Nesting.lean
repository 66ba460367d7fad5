import SchemaForms.Proofs.Validation.Calls

/-!
# How deeply calls are nested

Between one reference and the next the calls go down the tree of the root or of a definition, so
with so many references open, so many calls and no more can be nested, whatever the document is
(`Opens.length_add_height_le`). A limit on depth bounds the references, hence the calls, and a stack
of that size is enough (`ending_of_maxDepth`). Without a limit, a run that has no end opens more and
more references (`endless_iff_mostOpenRefs_eq_top`).
-/

namespace SchemaForms

open SchemaForms.Frame

variable {config : Config} {root : Schema} {document : Value} {stack : Nat} {c : Call}
  {around : List Call}

/-- A call goes down one level of a tree, or follows a reference to the top of another tree. -/
theorem Opens.length_add_height_le (hcheck : root.check = .ok ()) (hjson : document.isJson)
    (h : Opens config root document c around) :
    around.length + c.frame.schema.height ≤
      openRefs around * (root.topHeight + 1) + root.topHeight := by
  induction h with
  | start =>
    have htop : root.height ≤ root.topHeight := Schema.CheckedNode.root.height_le
    simpa [openRefs, Call.start, Frame.start] using htop
  | @call c c' around h hc ih =>
    have hsole := ((h.regular hcheck hjson).correct hcheck).sole
    have htop : c'.frame.schema.height ≤ root.topHeight :=
      ((h.call hc).regular hcheck hjson).checked.height_le
    rw [List.length_cons]
    rcases (h.enters hcheck hjson hc).child_or_follow with
      ⟨_, hchild⟩ | ⟨name, target, href, _, _, _⟩
    · have hlower := hchild.height_lt
      rw [openRefs_cons_of_not_ref (hchild.ref_eq_none hsole)]
      omega
    · rw [openRefs_cons_of_ref href, Nat.succ_mul]
      omega

/-- So many calls are nested at most for each tree that is open. -/
theorem Opens.nesting_le (hcheck : root.check = .ok ()) (hjson : document.isJson)
    (h : Opens config root document c around) :
    around.length + 1 ≤ (openRefs around + 1) * (root.topHeight + 1) := by
  have := h.length_add_height_le hcheck hjson
  rw [Nat.succ_mul]
  omega

/-- The limit on depth, which counts the whole document too, is never passed. -/
theorem Opens.openRefs_lt_maxDepth (hcheck : root.check = .ok ()) (hjson : document.isJson)
    (hlimit : 1 ≤ config.maxDepth) (h : Opens config root document c around) :
    openRefs around < config.maxDepth := by
  have hdepth := (regular_start root hjson).depth_le_maxDepth hcheck hlimit h.visits
  rw [h.depth_eq hcheck hjson] at hdepth
  exact hdepth

/-- A run that exhausts a stack opens that many calls inside one another. -/
theorem exists_opens_of_stackExhausted (hcheck : root.check = .ok ()) (hjson : document.isJson)
    (h : (trace stack config root document).halt = some .stackExhausted) :
    ∃ c around, Opens config root document c around ∧ around.length = stack := by
  rcases Opens.start.of_halt h with ⟨_, c, around, hopens, hlength⟩ | hlimit | ⟨c, around, hopens, hp⟩
  · exact ⟨c, around, hopens, by simpa using hlength⟩
  · cases hlimit
  · cases ((hopens.regular hcheck hjson).mem_parts_iff hcheck).mp hp

/-- A run ends with its stack if its calls are no more deeply nested. -/
theorem halt_ne_of_nesting_le (hcheck : root.check = .ok ()) (hjson : document.isJson)
    (h : ∀ c around, Opens config root document c around → around.length + 1 ≤ stack) :
    (trace stack config root document).halt ≠ some .stackExhausted := by
  intro hexhausted
  obtain ⟨c, around, hopens, hlength⟩ := exists_opens_of_stackExhausted hcheck hjson hexhausted
  have := h c around hopens
  omega

theorem Opens.nesting_le_maxDepth (hcheck : root.check = .ok ()) (hjson : document.isJson)
    (hlimit : 1 ≤ config.maxDepth) (h : Opens config root document c around) :
    around.length + 1 ≤ config.maxDepth * (root.topHeight + 1) :=
  (h.nesting_le hcheck hjson).trans
    (Nat.mul_le_mul_right _ (h.openRefs_lt_maxDepth hcheck hjson hlimit))

/-- A run without end opens more and more references, and only such a run does. -/
theorem endless_iff_mostOpenRefs_eq_top (hcheck : root.check = .ok ()) (hjson : document.isJson) :
    Endless config root document ↔ mostOpenRefs config root document = ⊤ := by
  constructor
  · intro h
    refine ENat.eq_top_iff_forall_ge.mpr fun n => (le_mostOpenRefs_iff n).mpr ?_
    have hexhausted := Trace.outcome_eq_stackExhausted_iff.mp (h (n * (root.topHeight + 1)))
    obtain ⟨c, around, hopens, hlength⟩ := exists_opens_of_stackExhausted hcheck hjson hexhausted
    refine ⟨c, around, hopens, ?_⟩
    have hnesting := hopens.nesting_le hcheck hjson
    rw [hlength] at hnesting
    exact Nat.le_of_lt_succ (Nat.lt_of_mul_lt_mul_right hnesting)
  · intro h stack
    by_contra hne
    have hle : ((stack : ℕ) : ℕ∞) ≤ mostOpenRefs config root document := h ▸ le_top
    obtain ⟨c, around, hopens, hrefs⟩ := (le_mostOpenRefs_iff stack).mp hle
    have hends : (trace stack config root document).halt ≠ some .stackExhausted :=
      fun hexhausted => hne (Trace.outcome_eq_stackExhausted_iff.mpr hexhausted)
    have hlength := hopens.length_le hends
    have hcount : openRefs around ≤ around.length := List.countP_le_length
    omega

/-- **A limit on depth bounds every run.** The calls are never more deeply nested than the limit
times the number of levels of the highest tree of the root, whatever the document is; so with a
stack of that size, or a larger one, the run ends with one and the same report or at the limit. -/
theorem ending_of_maxDepth (config : Config) (root : Schema) (document : Value)
    (hcheck : root.check = .ok ()) (hjson : document.isJson) (hlimit : 1 ≤ config.maxDepth) :
    (∃ outcome, (∀ stack, config.maxDepth * (root.topHeight + 1) ≤ stack →
        (trace stack config root document).outcome config = outcome) ∧
      ((∃ report, outcome = .ok report) ∨ outcome = .error (.tooDeep config.maxDepth))) ∧
    ∀ c around, Opens config root document c around →
      (c :: around).length ≤ config.maxDepth * (root.topHeight + 1) := by
  let enough := config.maxDepth * (root.topHeight + 1)
  have hnesting : ∀ c around, Opens config root document c around → around.length + 1 ≤ enough :=
    fun c around h => h.nesting_le_maxDepth hcheck hjson hlimit
  have hends : ∀ stack, enough ≤ stack →
      (trace stack config root document).halt ≠ some .stackExhausted := fun stack hstack =>
    halt_ne_of_nesting_le hcheck hjson fun c around h => (hnesting c around h).trans hstack
  refine ⟨⟨(trace enough config root document).outcome config, fun stack hstack => ?_, ?_⟩, hnesting⟩
  · rw [trace_eq_of_le hstack (hends enough (Nat.le_refl _))]
  · cases houtcome : (trace enough config root document).outcome config with
    | ok report => exact .inl ⟨report, rfl⟩
    | error abort =>
      cases expected_of_outcome_eq_error hcheck hjson houtcome with
      | tooDeep _ => exact .inr rfl
      | stackExhausted =>
        exact absurd (Trace.outcome_eq_stackExhausted_iff.mp houtcome)
          (hends enough (Nat.le_refl _))

/-- Under a limit of two the reference in the first node is too deep; four levels are enough to get
there. -/
theorem linkedList_tooDeep :
    EndsWith ⟨0, 2, true⟩ Schema.linkedList
      (.object [("item", .int 1), ("next", .object [("item", .int 2)])])
      (.error (.tooDeep 2)) := by
  obtain ⟨⟨outcome, hends, _⟩, _⟩ := ending_of_maxDepth ⟨0, 2, true⟩ Schema.linkedList
    (.object [("item", .int 1), ("next", .object [("item", .int 2)])]) rfl rfl (by decide)
  have houtcome : .error (.tooDeep 2) = outcome := hends 4 (Nat.le_refl 4)
  rw [houtcome]
  exact ⟨4, hends⟩

end SchemaForms
