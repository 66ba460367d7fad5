import SchemaForms.Proofs.Validation.Outcome

/-!
# The limit on violations

A run with a limit on violations is the run without one, cut off at the violation that fills the
limit: with any stack whatever, its trace is the other trace up to that violation (`trace_eq_cap`).
The walks are related in turn, where the limit that is left for the second is what the first one did
not use (`Walk.Caps`). So the limit only truncates (`maxErrors_truncates`), also where the run
without it is aborted or goes on for ever after the violations that fill it.
-/

namespace SchemaForms

variable {config : Config} {root : Schema} {document : Value} {limit : Nat}

/-- The trace halted at the violation that fills the limit, if it has so many. -/
def Trace.cap (limit : Nat) (t : Trace) : Trace :=
  if limit ≤ t.violations.length then ⟨t.violations.take limit, some .errorLimit⟩ else t

namespace Trace

variable {t : Trace}

theorem cap_of_le (h : limit ≤ t.violations.length) :
    t.cap limit = ⟨t.violations.take limit, some .errorLimit⟩ :=
  if_pos h

theorem cap_of_lt (h : t.violations.length < limit) : t.cap limit = t :=
  if_neg (Nat.not_le.mpr h)

/-- What comes behind some violations is cut off where it fills what they left of the limit. -/
theorem cap_append {violations : List Violation} (h : violations.length ≤ limit) :
    (Trace.mk (violations ++ t.violations) t.halt).cap limit =
      ⟨violations ++ (t.cap (limit - violations.length)).violations,
        (t.cap (limit - violations.length)).halt⟩ := by
  have hlength : (violations ++ t.violations).length =
      violations.length + t.violations.length := List.length_append
  by_cases hfull : limit - violations.length ≤ t.violations.length
  · have hwhole : limit ≤ (violations ++ t.violations).length := by omega
    rw [cap_of_le hwhole, cap_of_le hfull, List.take_append, List.take_of_length_le h]
  · have hwhole : (violations ++ t.violations).length < limit := by omega
    rw [cap_of_lt hwhole, cap_of_lt (Nat.not_le.mp hfull)]

theorem violations_cap (limit : Nat) (t : Trace) :
    (t.cap limit).violations = t.violations.take limit := by
  by_cases h : limit ≤ t.violations.length
  · rw [cap_of_le h]
  · have hlt := Nat.not_le.mp h
    rw [cap_of_lt hlt, List.take_of_length_le hlt.le]

end Trace

/-! ## Walks under the limit -/

namespace Walk

variable {first second : Walk} {found : Nat}

theorem violations_prefix_andThen :
    (first found).violations <+: (first.andThen second found).violations := by
  cases h : (first found).halt with
  | some cause => exact ⟨[], by rw [List.append_nil, andThen_of_halt h]⟩
  | none =>
    rw [andThen_of_end h]
    exact List.prefix_append _ _

/-- As long as the limit is not filled, the first walk is the second one cut off where it fills
what is left of the limit. -/
def Caps (limit : Nat) (capped free : Walk) : Prop :=
  ∀ found, found < limit → capped found = (free found).cap (limit - found)

namespace Caps

variable {first' second' : Walk}

theorem done : Caps limit done done := by
  intro found hfound
  have hleft : ([] : List Violation).length < limit - found := by
    rw [List.length_nil]
    omega
  exact (Trace.cap_of_lt hleft).symm

theorem halt (cause : Halt) : Caps limit (halt cause) (halt cause) := by
  intro found hfound
  have hleft : ([] : List Violation).length < limit - found := by
    rw [List.length_nil]
    omega
  exact (Trace.cap_of_lt hleft).symm

theorem report (v : Violation) : Caps limit (report limit v) (report 0 v) := by
  intro found hfound
  have hfree : Walk.report 0 v found = ⟨[v], none⟩ := by
    rw [Walk.report, if_neg (Nat.succ_ne_zero found)]
  rw [hfree, Walk.report]
  by_cases hlast : found + 1 = limit
  · have hone : limit - found = 1 := by omega
    rw [if_pos hlast, hone]
    rfl
  · have hmore : ([v] : List Violation).length < limit - found := by
      rw [List.length_singleton]
      omega
    rw [if_neg hlast]
    exact (Trace.cap_of_lt hmore).symm

theorem andThen (hfirst : Caps limit first first') (hsecond : Caps limit second second') :
    Caps limit (first.andThen second) (first'.andThen second') := by
  intro found hfound
  have hcap := hfirst found hfound
  by_cases hfull : limit - found ≤ (first' found).violations.length
  · -- The first walk fills the limit, so nothing behind it counts.
    have hhalt : (first found).halt = some .errorLimit := by
      rw [hcap, Trace.cap_of_le hfull]
    have hprefix : (first' found).violations <+: (first'.andThen second' found).violations :=
      violations_prefix_andThen
    rw [andThen_of_halt hhalt, hcap, Trace.cap_of_le hfull,
      Trace.cap_of_le (hfull.trans hprefix.length_le)]
    obtain ⟨rest, hrest⟩ := hprefix
    rw [← hrest, List.take_append_of_le_length hfull]
  · have hleft := Nat.not_le.mp hfull
    have heq : first found = first' found := by
      rw [hcap, Trace.cap_of_lt hleft]
    cases hend : (first' found).halt with
    | some cause => rw [andThen_of_halt (heq ▸ hend), andThen_of_halt hend, ← hcap]
    | none =>
      have hbelow : found + (first' found).violations.length < limit := by omega
      have hrest : limit - found - (first' found).violations.length =
          limit - (found + (first' found).violations.length) := by omega
      rw [andThen_of_end (heq ▸ hend), andThen_of_end hend, heq, hsecond _ hbelow,
        Trace.cap_append hleft.le, hrest]

theorem compositional (limit : Nat) : Compositional (Caps limit) :=
  ⟨done, andThen⟩

end Caps

end Walk

/-! ## Whole walks -/

namespace Frame

variable {stack : Nat}

/-- The limit on violations has no part in what a step does. -/
theorem parts_maxErrors (config : Config) (root : Schema) (f : Frame) (limit : Nat) :
    f.parts { config with maxErrors := limit } root = f.parts config root := rfl

theorem walk_caps (hfree : config.maxErrors = 0) (f : Frame) :
    Walk.Caps limit (f.walk { config with maxErrors := limit } root stack)
      (f.walk config root stack) := by
  induction stack generalizing f with
  | zero =>
    rw [walk_zero, walk_zero]
    exact .halt _
  | succ stack ih =>
    rw [walk_succ, walk_succ, parts_maxErrors]
    refine walkParts_rel (Walk.Caps.compositional limit) fun p _ => ?_
    cases p with
    | report v =>
      have hreport : Part.walk config root stack (.report v) = Walk.report 0 v := by
        rw [← hfree]
        rfl
      rw [hreport]
      exact .report v
    | halt cause => exact .halt cause
    | visit g => exact ih g

end Frame

/-- With any stack, the trace under a limit on violations is the trace without one, cut off. -/
theorem trace_eq_cap (root : Schema) (document : Value) (stack : Nat)
    (hfree : config.maxErrors = 0) (hlimit : 1 ≤ limit) :
    trace stack { config with maxErrors := limit } root document =
      (trace stack config root document).cap limit :=
  Frame.walk_caps hfree (Frame.start root document) 0 hlimit

/-! ## The violations that a run records -/

/-- These are the violations that a run records first, in this order, however it may end. -/
def RecordsFirst (config : Config) (root : Schema) (document : Value)
    (first : List Violation) : Prop :=
  ∃ stack, first <+: (trace stack config root document).violations

/-- Violations that fill the limit are the report of the run under it. -/
theorem RecordsFirst.endsWith {first : List Violation} (hfree : config.maxErrors = 0)
    (hlimit : 1 ≤ first.length) (h : RecordsFirst config root document first) :
    EndsWith { config with maxErrors := first.length } root document (.ok ⟨first⟩) := by
  obtain ⟨stack, hprefix⟩ := h
  have htrace : trace stack { config with maxErrors := first.length } root document =
      ⟨first, some .errorLimit⟩ := by
    rw [trace_eq_cap root document stack hfree hlimit, Trace.cap_of_le hprefix.length_le,
      ← List.prefix_iff_eq_take.mp hprefix]
  have hhalt : (trace stack { config with maxErrors := first.length } root document).halt ≠
      some .stackExhausted := by
    simp [htrace]
  have hends := endsWith_of_halt_ne hhalt
  rwa [htrace] at hends

/-- What a run records is one sequence: of two of its beginnings, the shorter is a beginning of the
longer. -/
theorem RecordsFirst.prefix_of_length_le {first second : List Violation}
    (hfree : config.maxErrors = 0) (h : RecordsFirst config root document first)
    (h' : RecordsFirst config root document second) (hle : first.length ≤ second.length) :
    first <+: second := by
  by_cases hnil : first.length = 0
  · rw [List.length_eq_zero_iff.mp hnil]
    exact List.nil_prefix
  have hone : 1 ≤ first.length := Nat.pos_of_ne_zero hnil
  have hlength : (second.take first.length).length = first.length := List.length_take_of_le hle
  have htake : RecordsFirst config root document (second.take first.length) := by
    obtain ⟨stack, hprefix⟩ := h'
    exact ⟨stack, (List.take_prefix _ _).trans hprefix⟩
  have hends := htake.endsWith hfree (by omega)
  rw [hlength] at hends
  have heq := (h.endsWith hfree hone).unique hends
  rw [List.prefix_iff_eq_take]
  simpa using heq

/-- **The limit on violations only truncates.** Where a run without the limit records as many
violations as the limit allows, the run under the limit returns just these, however the other run
ends after them; where it records fewer, both end alike. So a report under the limit is no longer
than the limit, nothing in it is out of order, and nothing is missing in front of its end. -/
theorem maxErrors_truncates (config : Config) (root : Schema) (document : Value) (k : Nat)
    (hfree : config.maxErrors = 0) (hk : 1 ≤ k) :
    (∀ first, RecordsFirst config root document first → first.length = k →
      EndsWith { config with maxErrors := k } root document (.ok ⟨first⟩)) ∧
    ((∀ first, RecordsFirst config root document first → first.length < k) →
      (∀ outcome, EndsWith { config with maxErrors := k } root document outcome ↔
        EndsWith config root document outcome) ∧
      (Endless { config with maxErrors := k } root document ↔ Endless config root document)) ∧
    (∀ report, EndsWith { config with maxErrors := k } root document (.ok report) →
      report.violations.length ≤ k ∧ RecordsFirst config root document report.violations) ∧
    ∀ whole, EndsWith config root document (.ok whole) →
      EndsWith { config with maxErrors := k } root document (.ok ⟨whole.violations.take k⟩) := by
  have hcap := fun stack => trace_eq_cap root document stack hfree hk
  refine ⟨?full, ?short, ?report, ?whole⟩
  case full =>
    rintro first hfirst rfl
    exact hfirst.endsWith hfree hk
  case short =>
    intro hshort
    have hsame : ∀ stack, (trace stack { config with maxErrors := k } root document).outcome
        { config with maxErrors := k } = (trace stack config root document).outcome config := by
      intro stack
      rw [hcap stack, Trace.cap_of_lt (hshort _ ⟨stack, List.prefix_rfl⟩)]
      rfl
    simp only [EndsWith, Endless, hsame, implies_true, and_self]
  case report =>
    rintro report ⟨enough, hends⟩
    obtain ⟨_, rfl⟩ := Trace.outcome_eq_ok_iff.mp (hends enough (Nat.le_refl _))
    rw [hcap enough, Trace.violations_cap]
    exact ⟨List.length_take_le _ _, enough, List.take_prefix _ _⟩
  case whole =>
    rintro whole ⟨enough, hends⟩
    refine ⟨enough, fun stack hstack => Trace.outcome_eq_ok_iff.mpr ?_⟩
    obtain ⟨hhalt, rfl⟩ := Trace.outcome_eq_ok_iff.mp (hends stack hstack)
    rw [hcap stack, Trace.violations_cap]
    refine ⟨?_, rfl⟩
    by_cases hfull : k ≤ (trace stack config root document).violations.length
    · rw [Trace.cap_of_le hfull]
      exact .inr rfl
    · rw [Trace.cap_of_lt (Nat.not_le.mp hfull)]
      exact hhalt

/-- The first violation is found in front of a walk that has no end. -/
theorem selfReferring_truncated :
    EndsWith ⟨1, 0, false⟩ Schema.selfReferring
      (.object [("item", .int 300), ("rest", .null)])
      (.ok ⟨[⟨["item"], ["properties", "item", "type"]⟩]⟩) :=
  (maxErrors_truncates ⟨0, 0, false⟩ Schema.selfReferring
    (.object [("item", .int 300), ("rest", .null)]) 1 rfl (Nat.le_refl 1)).1
    [⟨["item"], ["properties", "item", "type"]⟩] ⟨2, [], rfl⟩ rfl

end SchemaForms
