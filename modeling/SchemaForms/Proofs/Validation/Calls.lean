import Mathlib.Data.ENat.Lattice
import Mathlib.Order.CompletePartialOrder
import SchemaForms.Proofs.Validation.Outcome

/-!
# Open calls

A `Call` is a step of a walk under way. A call makes another one when the parts of its step in front
of that one come to their end; `Opens` are the calls that a run gets to in this way, each with the
calls that are open around it. Unlike `Frame.Visits` this leaves out what stands behind a halt.

A walk that halts does so at a call that it opens (`Opens.of_halt`), and a call that stops for some
cause stops the call that made it (`Call.Makes.stops`). The calls around a call count the references
that are open there (`openRefs`), which is what the location keeps as the depth
(`Opens.depth_eq`); `mostOpenRefs` is the largest such number in the run.
-/

namespace SchemaForms

open SchemaForms.Frame

/-- A step of a walk under way: its frame, and the number of violations found before it. -/
structure Call where
  frame : Frame
  found : Nat

namespace Call

/-- The call for a whole document. -/
def start (root : Schema) (document : Value) : Call := ⟨Frame.start root document, 0⟩

/-- The trace of the walk from the call on. -/
def trace (config : Config) (root : Schema) (stack : Nat) (c : Call) : Trace :=
  c.frame.walk config root stack c.found

/-- The node of the call is a reference. -/
def isRef (c : Call) : Bool := c.frame.schema.ref.isSome

/-- The first call makes the second one: the parts in front of it come to their end. -/
inductive Makes (config : Config) (root : Schema) (c : Call) : Call → Prop
  | intro {before after : List Part} {g : Frame} {stack : Nat} {violations : List Violation}
      (hparts : c.frame.parts config root = before ++ .visit g :: after)
      (hends : walkParts config root stack before c.found = ⟨violations, none⟩) :
      Makes config root c ⟨g, c.found + violations.length⟩

end Call

/-- The run opens the call inside these other ones, the innermost first. -/
inductive Opens (config : Config) (root : Schema) (document : Value) : Call → List Call → Prop
  | start : Opens config root document (.start root document) []
  | call {c c' : Call} {around : List Call} (h : Opens config root document c around)
      (hc : c.Makes config root c') : Opens config root document c' (c :: around)

/-- The number of the references among the calls around a call: these are open there. -/
def openRefs (around : List Call) : Nat := around.countP Call.isRef

/-- The largest number of references that are open at once in the run, if there is one. -/
noncomputable def mostOpenRefs (config : Config) (root : Schema) (document : Value) : ℕ∞ :=
  ⨆ (c : Call) (around : List Call) (_ : Opens config root document c around),
    (openRefs around : ℕ∞)

variable {config : Config} {root : Schema} {document : Value} {stack found : Nat} {c c' : Call}
  {around : List Call} {cause : Halt}

theorem le_mostOpenRefs_iff (n : Nat) :
    (n : ℕ∞) ≤ mostOpenRefs config root document ↔
      ∃ c around, Opens config root document c around ∧ n ≤ openRefs around := by
  constructor
  · intro h
    by_contra hnone
    have hbelow : ∀ c around, Opens config root document c around → openRefs around < n :=
      fun c around hopens => Nat.lt_of_not_le fun hle => hnone ⟨c, around, hopens, hle⟩
    have hpos : 0 < n := (Nat.zero_le _).trans_lt (hbelow _ _ .start)
    have hmost : mostOpenRefs config root document ≤ (n - 1 : Nat) := by
      refine iSup₂_le fun c around => iSup_le fun hopens => ?_
      have := hbelow c around hopens
      exact Nat.cast_le.mpr (by omega)
    have hle : n ≤ n - 1 := Nat.cast_le.mp (h.trans hmost)
    omega
  · rintro ⟨c, around, hopens, hle⟩
    exact (Nat.cast_le.mpr hle).trans
      (le_iSup₂_of_le c around (le_iSup (fun _ => (openRefs around : ℕ∞)) hopens))

/-! ## Where a walk halts -/

/-- Parts that halt: one of them does, and those in front of it come to their end. -/
theorem exists_split_of_halt {parts : List Part}
    (h : (walkParts config root stack parts found).halt = some cause) :
    ∃ before p after violations, parts = before ++ p :: after ∧
      walkParts config root stack before found = ⟨violations, none⟩ ∧
      (p.walk config root stack (found + violations.length)).halt = some cause := by
  induction parts generalizing found with
  | nil => cases h
  | cons p rest ih =>
    have hwalk : walkParts config root stack (p :: rest) found =
        (p.walk config root stack).andThen (walkParts config root stack rest) found := rfl
    rw [hwalk] at h
    cases hp : (p.walk config root stack found).halt with
    | some c =>
      rw [Walk.andThen_of_halt hp] at h
      exact ⟨[], p, rest, [], rfl, rfl, h⟩
    | none =>
      rw [Walk.andThen_of_end hp] at h
      obtain ⟨before, q, after, violations, rfl, hbefore, hq⟩ := ih h
      refine ⟨p :: before, q, after,
        (p.walk config root stack found).violations ++ violations, rfl, ?_, ?_⟩
      · show (p.walk config root stack).andThen (walkParts config root stack before) found = _
        rw [Walk.andThen_of_end hp, hbefore]
      · rw [List.length_append, ← Nat.add_assoc]
        exact hq

/-- A walk that halts does so at a call that the run opens: where the stack is exhausted, that many
calls are open inside one another. -/
theorem Opens.of_halt (h : Opens config root document c around)
    (hhalt : (c.trace config root stack).halt = some cause) :
    (cause = .stackExhausted ∧ ∃ c' around', Opens config root document c' around' ∧
      around'.length = around.length + stack) ∨
    cause = .errorLimit ∨
    ∃ c' around', Opens config root document c' around' ∧
      .halt cause ∈ c'.frame.parts config root := by
  induction stack generalizing c around with
  | zero =>
    rw [Call.trace, walk_zero] at hhalt
    exact .inl ⟨(Option.some.inj hhalt).symm, c, around, h, rfl⟩
  | succ stack ih =>
    rw [Call.trace, walk_succ] at hhalt
    obtain ⟨before, p, after, violations, hparts, hends, hp⟩ := exists_split_of_halt hhalt
    cases p with
    | report v => exact .inr (.inl (Walk.eq_errorLimit_of_report hp))
    | halt cause' =>
      obtain rfl : cause' = cause := Option.some.inj hp
      exact .inr (.inr ⟨c, around, h, by simp [hparts]⟩)
    | visit g =>
      rcases ih (h.call (.intro hparts hends)) hp with ⟨hcause, c', around', hopens, hlength⟩ | h'
      · refine .inl ⟨hcause, c', around', hopens, ?_⟩
        rw [hlength, List.length_cons]
        omega
      · exact .inr h'

/-- The trace halts for this cause, or for want of stack before that. -/
def Trace.StopsFor (cause : Halt) (t : Trace) : Prop :=
  t.halt = some cause ∨ t.halt = some .stackExhausted

namespace Walk

variable {first second : Walk}

theorem stopsFor_andThen_of_first (h : (first found).StopsFor cause) :
    (first.andThen second found).StopsFor cause := by
  have hhalt : ∃ cause', (first found).halt = some cause' := by
    rcases h with h | h
    · exact ⟨_, h⟩
    · exact ⟨_, h⟩
  obtain ⟨cause', hhalt⟩ := hhalt
  rw [andThen_of_halt hhalt]
  exact h

theorem stopsFor_andThen_of_second {violations : List Violation}
    (hfirst : first found = ⟨violations, none⟩)
    (h : (second (found + violations.length)).StopsFor cause) :
    (first.andThen second found).StopsFor cause := by
  have hend : (first found).halt = none := by rw [hfirst]
  rw [andThen_of_end hend, hfirst]
  exact h

end Walk

/-- A call that stops for some cause stops the call that made it. The first run may have other
limits than the second one, as long as it does the same step there, and the same parts of it up to a
halt for this cause. -/
theorem Call.Makes.stopsFor_succ {limited : Config} (h : c.Makes config root c')
    (herrors : limited.maxErrors = config.maxErrors)
    (hparts : c.frame.parts limited root = c.frame.parts config root)
    (hagree : ∀ g, Goes config root c.frame g →
      Walk.AgreesUnless cause (g.walk limited root stack) (g.walk config root stack))
    (hstops : (c'.trace limited root stack).StopsFor cause) :
    (c.trace limited root (stack + 1)).StopsFor cause := by
  obtain @⟨before, after, g, enough, violations, hsplit, hends⟩ := h
  have hwalk : c.trace limited root (stack + 1) =
      (walkParts limited root stack before).andThen
        ((g.walk limited root stack).andThen (walkParts limited root stack after)) c.found := by
    rw [Call.trace, walk_succ, hparts, hsplit, walkParts_append]
    rfl
  rw [hwalk]
  by_cases hearly : (walkParts limited root stack before c.found).StopsFor cause
  · exact Walk.stopsFor_andThen_of_first hearly
  · -- The parts in front of the call come to their end here too, with the same violations.
    obtain ⟨hcause, hexhausted⟩ := not_or.mp hearly
    have hsame : walkParts config root stack before c.found =
        walkParts limited root stack before c.found :=
      walkParts_agreesUnless herrors (fun g' hg' => hagree g' (by simp [Goes, hsplit, hg']))
        c.found hcause
    have hends' : walkParts limited root stack before c.found = ⟨violations, none⟩ := by
      rw [← hsame, ← hends]
      exact walkParts_eq_of_halt_ne (by rwa [hsame]) (by simp [hends])
    exact Walk.stopsFor_andThen_of_second hends' (Walk.stopsFor_andThen_of_first hstops)

/-- The call stops for this cause, with any stack that is enough to get to it. -/
def Call.Stops (config : Config) (root : Schema) (cause : Halt) (c : Call) : Prop :=
  ∀ stack, (c.trace config root stack).StopsFor cause

theorem Call.stops_of_succ
    (h : ∀ stack, (c.trace config root (stack + 1)).StopsFor cause) : c.Stops config root cause := by
  intro stack
  cases stack with
  | zero =>
    rw [Call.trace, walk_zero]
    exact .inr rfl
  | succ stack => exact h stack

theorem Call.Makes.stops {limited : Config} (h : c.Makes config root c')
    (herrors : limited.maxErrors = config.maxErrors)
    (hparts : c.frame.parts limited root = c.frame.parts config root)
    (hagree : ∀ stack g, Goes config root c.frame g →
      Walk.AgreesUnless cause (g.walk limited root stack) (g.walk config root stack))
    (hstops : c'.Stops limited root cause) : c.Stops limited root cause :=
  Call.stops_of_succ fun stack =>
    h.stopsFor_succ herrors hparts (hagree stack) (hstops stack)

/-- A run that opens a call without end has no end. -/
theorem Opens.endless (h : Opens config root document c around)
    (hstops : c.Stops config root .stackExhausted) : Endless config root document := by
  induction h with
  | start => exact fun stack => Trace.outcome_eq_stackExhausted_iff.mpr ((hstops stack).elim id id)
  | call _ hc ih => exact ih (hc.stops rfl rfl (fun _ _ _ => .refl _) hstops)

/-- The calls of a run are no more deeply nested than its stack allows. -/
theorem Opens.length_le (h : Opens config root document c around)
    (hstack : (trace stack config root document).halt ≠ some .stackExhausted) :
    around.length + 1 ≤ stack := by
  -- From the outermost call inwards, each call is given one level less and does not exhaust it.
  have hleft : ∃ left, around.length + left = stack ∧
      (c.trace config root left).halt ≠ some .stackExhausted := by
    induction h with
    | start => exact ⟨stack, Nat.zero_add _, hstack⟩
    | @call c c' around _ hc ih =>
      obtain ⟨left, hlength, hne⟩ := ih
      cases left with
      | zero =>
        rw [Call.trace, walk_zero] at hne
        exact absurd rfl hne
      | succ left =>
        refine ⟨left, by simp; omega, fun hexhausted => hne ?_⟩
        exact (hc.stopsFor_succ rfl rfl (fun _ _ => .refl _) (.inl hexhausted)).elim id id
  obtain ⟨left, hlength, hne⟩ := hleft
  cases left with
  | zero =>
    rw [Call.trace, walk_zero] at hne
    exact absurd rfl hne
  | succ left => omega

/-! ## Calls under a root that passes its check -/

theorem Call.Makes.goes (h : c.Makes config root c') : Goes config root c.frame c'.frame := by
  obtain ⟨hparts, _⟩ := h
  simp [Goes, hparts]

theorem Opens.visits (h : Opens config root document c around) :
    Visits config root (Frame.start root document) c.frame := by
  induction h with
  | start => exact .refl
  | call _ hc ih => exact ih.tail hc.goes

theorem Opens.regular (hcheck : root.check = .ok ()) (hjson : document.isJson)
    (h : Opens config root document c around) : Regular root c.frame :=
  (regular_start root hjson).of_visits hcheck h.visits

theorem Opens.enters (hcheck : root.check = .ok ()) (hjson : document.isJson)
    (h : Opens config root document c around) (hc : c.Makes config root c') :
    c.frame.Enters config root c'.frame :=
  (h.regular hcheck hjson).enters_of_goes hcheck hc.goes

theorem openRefs_cons_of_ref {name : String} (h : c.frame.schema.ref = some name) :
    openRefs (c :: around) = openRefs around + 1 :=
  List.countP_cons_of_pos (by simp [Call.isRef, h])

theorem openRefs_cons_of_not_ref (h : c.frame.schema.ref = none) :
    openRefs (c :: around) = openRefs around :=
  List.countP_cons_of_neg (by simp [Call.isRef, h])

/-- The depth of a call counts the references among the calls around it, and no others: those that
were followed before and are done with do not add up. -/
theorem Opens.depth_eq (hcheck : root.check = .ok ()) (hjson : document.isJson)
    (h : Opens config root document c around) :
    c.frame.location.depth = openRefs around + 1 := by
  induction h with
  | start => rfl
  | @call c c' around h hc ih =>
    have hsole := ((h.regular hcheck hjson).correct hcheck).sole
    rcases (h.enters hcheck hjson hc).child_or_follow with
      ⟨hsame, hchild⟩ | ⟨name, target, href, _, _, hfollow⟩
    · rw [hsame, ih, openRefs_cons_of_not_ref (hchild.ref_eq_none hsole)]
    · rw [hfollow, openRefs_cons_of_ref href, ← ih]
      rfl

theorem Opens.one_le_depth (hcheck : root.check = .ok ()) (hjson : document.isJson)
    (h : Opens config root document c around) : 1 ≤ c.frame.location.depth := by
  rw [h.depth_eq hcheck hjson]
  exact Nat.le_add_left 1 _

end SchemaForms
