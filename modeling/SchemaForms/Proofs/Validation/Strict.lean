import SchemaForms.Proofs.Validation.Comparison

/-!
# Strict runs

A strict run visits the same frames as one that is not strict. At each frame that judges an object
by properties it records the undeclared members as well, behind everything else that is found there
(`parts_strict_eq`), so its violations are those of the other run with these merged into them
(`strict_adds_undeclared`). The tag of a union counts as declared at the frames that the union
itself goes on to, and nowhere else.
-/

namespace SchemaForms

/-- The third list holds the elements of the first two, those of each in their order. -/
inductive Merges {α : Type} : List α → List α → List α → Prop
  | nil : Merges [] [] []
  | left {x : α} {xs ys zs : List α} (h : Merges xs ys zs) : Merges (x :: xs) ys (x :: zs)
  | right {y : α} {xs ys zs : List α} (h : Merges xs ys zs) : Merges xs (y :: ys) (y :: zs)

namespace Merges

variable {α : Type} {xs xs' ys ys' zs zs' : List α}

theorem nil_left (ys : List α) : Merges [] ys ys := by
  induction ys with
  | nil => exact .nil
  | cons y rest ih => exact .right ih

theorem append (h : Merges xs ys zs) (h' : Merges xs' ys' zs') :
    Merges (xs ++ xs') (ys ++ ys') (zs ++ zs') := by
  induction h with
  | nil => exact h'
  | left _ ih => exact .left ih
  | right _ ih => exact .right ih

theorem sublist (h : Merges xs ys zs) : xs.Sublist zs := by
  induction h with
  | nil => exact .slnil
  | left _ ih => exact ih.cons_cons _
  | right _ ih => exact ih.cons _

end Merges

variable {config : Config} {root : Schema} {document : Value} {f g : Frame} {parts : List Part}
  {violations : List Violation} {frames : List Frame}

namespace Config

/-- The configuration with undeclared members allowed. -/
def lax (config : Config) : Config := { config with strict := false }

/-- The configuration with undeclared members refused. -/
def strictly (config : Config) : Config := { config with strict := true }

end Config

namespace Frame

/-- The violations of the undeclared members of an object that is judged by properties. -/
def undeclared (f : Frame) : List Violation :=
  match f.schema.form, f.value with
  | .properties, .object members =>
    (f.undeclaredKeys (keys f.schema.properties ++ keys f.schema.optionalProperties) members).map
      fun key => f.violation [key] []
  | _, _ => []

/-- A tagged union at the first frame goes on to the second one: it is the choice of the tag. -/
def Dispatches (tag : String) (f g : Frame) : Prop :=
  ∃ mapping text target members, f.schema.discriminator = some ⟨tag, some mapping⟩ ∧
    f.value = .object members ∧ members.lookup tag = some (.string text) ∧
    mapping.lookup text = some target ∧ g = f.choose tag text target

/-! ## A step -/

theorem propertyParts_strict_eq (h : f.schema.form = .properties) :
    f.propertyParts config.strictly f.schema.properties f.schema.optionalProperties =
      f.propertyParts config.lax f.schema.properties f.schema.optionalProperties ++
        f.undeclared.map .report := by
  unfold propertyParts undeclared
  rw [h]
  cases f.value with
  | object members =>
    simp only [memberParts, undeclaredParts_eq, Config.strictly, Config.lax, keys, List.map_append,
      List.map_map, List.append_assoc, if_true, Bool.false_eq_true, if_false, List.append_nil]
    rfl
  | _ => rfl

/-- A strict step does what another one does, and then records the undeclared members. -/
theorem Regular.parts_strict_eq (hcheck : root.check = .ok ()) (hf : Regular root f) :
    f.parts config.strictly root = f.parts config.lax root ++ f.undeclared.map .report := by
  have hsole := (hf.correct hcheck).sole
  obtain ⟨r, hread⟩ : ∃ r : Rule, r.ReadOff f.schema := ⟨_, f.schema.rule_readOff⟩
  have hform : f.schema.form = r.form := congrArg Rule.form (hsole.rule_eq hread)
  rw [parts_eq_of_readOff hsole hf.json hread, parts_eq_of_readOff hsole hf.json hread]
  cases r with
  | properties required optional =>
    obtain ⟨rfl, rfl, -⟩ := hread
    exact propertyParts_strict_eq hform
  | definition name =>
    simp only [undeclared, hform, Rule.form, List.map_nil, List.append_nil]
    rfl
  | _ => simp only [undeclared, hform, Rule.form, List.map_nil, List.append_nil]

theorem Dispatches.tag_eq {tag : String} (h : f.Dispatches tag g) : g.tag = some tag := by
  obtain ⟨_, _, _, _, -, -, -, -, rfl⟩ := h
  rfl

/-- The tag of a frame is that of a union that goes on to the frame. -/
theorem Enters.dispatches_iff (h : f.Enters config root g) {tag : String} :
    g.tag = some tag ↔ f.Dispatches tag g := by
  refine ⟨fun htag => ?_, Dispatches.tag_eq⟩
  cases h with
  | tagged h hv hx htarget =>
    obtain rfl := Option.some.inj htag
    exact ⟨_, _, _, _, h, hv, hx, htarget, rfl⟩
  | _ => cases htag

theorem violation_mem_undeclared_iff {key : String} :
    f.violation [key] [] ∈ f.undeclared ↔ f.schema.form = .properties ∧
      ∃ members, f.value = .object members ∧ key ∈ members.map (·.1) ∧
        key ∉ keys f.schema.properties ∧ key ∉ keys f.schema.optionalProperties ∧
        f.tag ≠ some key := by
  unfold undeclared
  split
  case h_1 members hform hv =>
    have hinj : ∀ other, f.violation [other] [] = f.violation [key] [] ↔ other = key := by
      simp [violation]
    simp only [List.mem_map, hinj, exists_eq_right, mem_undeclaredKeys_iff, List.mem_append, not_or,
      hform, hv, Value.object.injEq, exists_eq_left', true_and]
    tauto
  case h_2 hne =>
    simp only [List.not_mem_nil, false_iff]
    rintro ⟨hform, members, hv, -⟩
    exact hne members hform hv

end Frame

/-! ## A whole walk -/

open SchemaForms.Frame

namespace Completes

/-- What completes without being strict completes strictly, with the undeclared members of each
frame in addition. -/
theorem strictly (hcheck : root.check = .ok ()) (hparts : ∀ g, .visit g ∈ parts → Regular root g)
    (h : Completes config.lax root parts violations frames) :
    ∃ more, Completes config.strictly root parts more frames ∧
      Merges violations (frames.flatMap undeclared) more := by
  induction h with
  | nil => exact ⟨[], .nil, .nil⟩
  | report _ ih =>
    obtain ⟨more, h, hmerges⟩ := ih fun g hg => hparts g (List.mem_cons_of_mem _ hg)
    exact ⟨_, .report h, .left hmerges⟩
  | @visit f _ _ _ inner others _ _ ihf ih =>
    have hf := hparts f List.mem_cons_self
    obtain ⟨found, hfound, hmerges⟩ := ihf fun g hg => hf.of_enters (hf.enters_of_goes hcheck hg)
    obtain ⟨more, hmore, hmerges'⟩ := ih fun g hg => hparts g (List.mem_cons_of_mem _ hg)
    have hstep : Completes config.strictly root (f.parts config.strictly root)
        (found ++ f.undeclared) inner := by
      rw [hf.parts_strict_eq hcheck]
      simpa using hfound.append (reports f.undeclared)
    refine ⟨_, .visit hstep hmore, ?_⟩
    have hhere := (hmerges.append (.nil_left f.undeclared)).append hmerges'
    simpa using hhere

/-- What completes strictly completes without being strict. -/
theorem lax (hcheck : root.check = .ok ()) (hparts : ∀ g, .visit g ∈ parts → Regular root g)
    (h : Completes config.strictly root parts violations frames) :
    ∃ less, Completes config.lax root parts less frames := by
  induction h with
  | nil => exact ⟨[], .nil⟩
  | report _ ih =>
    obtain ⟨less, h⟩ := ih fun g hg => hparts g (List.mem_cons_of_mem _ hg)
    exact ⟨_, .report h⟩
  | @visit f _ _ _ inner others _ _ ihf ih =>
    have hf := hparts f List.mem_cons_self
    obtain ⟨found, hfound⟩ := ihf fun g hg => hf.of_enters (hf.enters_of_goes hcheck hg)
    obtain ⟨less, hless⟩ := ih fun g hg => hparts g (List.mem_cons_of_mem _ hg)
    rw [hf.parts_strict_eq hcheck] at hfound
    obtain ⟨_, _, _, _, hhere, hreports, -, rfl⟩ := append_iff.mp hfound
    obtain ⟨-, rfl⟩ := reports_iff.mp hreports
    exact ⟨_, .visit (by simpa using hhere) hless⟩

end Completes

/-- The frames of a walk that completes, and how the violations of the strict walk come about. -/
structure AddsUndeclared (config : Config) (root : Schema) (document : Value)
    (frames : List Frame) (lax strict : Report) : Prop where
  completes : Completes config.lax root [.visit (start root document)] lax.violations frames
  completes_strictly :
    Completes config.strictly root [.visit (start root document)] strict.violations frames
  merges : Merges lax.violations (frames.flatMap undeclared) strict.violations
  /-- At each frame the undeclared members are those that no map declares, except for the tag of a
  union that goes on to this frame. -/
  undeclared_iff : ∀ f ∈ frames, ∀ key, f.violation [key] [] ∈ f.undeclared ↔
    f.schema.form = .properties ∧ ∃ members, f.value = .object members ∧
      key ∈ members.map (·.1) ∧ key ∉ keys f.schema.properties ∧
      key ∉ keys f.schema.optionalProperties ∧ ¬ ∃ e ∈ frames, e.Dispatches key f
  /-- No tag is exempt inside a member or an item, nor behind a reference. -/
  not_dispatches : ∀ f g : Frame, ((∃ token keywords s x, g = f.enter token keywords s x) ∨
    ∃ name target, g = f.follow name target) → ∀ e ∈ frames, ∀ tag, ¬ e.Dispatches tag g

/-- The tag of a frame is that of a union at a frame of the same walk. -/
theorem exists_dispatches_iff (hcheck : root.check = .ok ()) (hjson : document.isJson)
    (h : Completes config root [.visit (start root document)] violations frames)
    (hf : f ∈ frames) {tag : String} :
    (∃ e ∈ frames, e.Dispatches tag f) ↔ f.tag = some tag := by
  constructor
  · rintro ⟨e, -, hdispatches⟩
    exact hdispatches.tag_eq
  · intro htag
    obtain ⟨_, hstart, hvisits⟩ := h.mem_frames_iff.mp hf
    obtain rfl : _ = start root document := by simpa using hstart
    rcases hvisits.cases_tail with rfl | ⟨e, hvisits, hgoes⟩
    · cases htag
    · have he := (regular_start root hjson).of_visits hcheck hvisits
      exact ⟨e, h.mem_frames_iff.mpr ⟨_, hstart, hvisits⟩,
        (he.enters_of_goes hcheck hgoes).dispatches_iff.mp htag⟩

/-- **A strict run only adds the undeclared members.** It ends as the run does that is not strict.
Where they return, they visit the same frames, and the strict report has the violations of the other
one with those of the undeclared members merged into them, frame by frame. -/
theorem strict_adds_undeclared (config : Config) (root : Schema) (document : Value)
    (hcheck : root.check = .ok ()) (hjson : document.isJson) (hfree : config.maxErrors = 0) :
    EndsAlike
      (fun lax strict => (∃ frames, AddsUndeclared config root document frames lax strict) ∧
        (strict.isValid → lax.isValid))
      config.lax root document config.strictly root document := by
  have hregular : ∀ g, Part.visit g ∈ [Part.visit (start root document)] → Regular root g := by
    simpa using regular_start root hjson
  have hlaxIff := @endsWith_ok_iff_completes config.lax root document hcheck hjson hfree
  have hstrictIff := @endsWith_ok_iff_completes config.strictly root document hcheck hjson hfree
  refine endsAlike_of_reports hcheck hjson hcheck hjson rfl (fun lax h => ?_) fun strict h => ?_
  · obtain ⟨frames, hlax⟩ := hlaxIff.mp h
    obtain ⟨more, hstrict, hmerges⟩ := hlax.strictly hcheck hregular
    refine ⟨⟨more⟩, hstrictIff.mpr ⟨frames, hstrict⟩,
      ⟨frames, hlax, hstrict, hmerges, fun f hf key => ?_, fun f g hg e _ tag h => ?_⟩,
      fun hvalid => ?_⟩
    · rw [exists_dispatches_iff hcheck hjson hlax hf]
      exact violation_mem_undeclared_iff
    · have htag := h.tag_eq
      rcases hg with ⟨_, _, _, _, rfl⟩ | ⟨_, _, rfl⟩ <;> cases htag
    · obtain rfl : more = [] := List.isEmpty_iff.mp hvalid
      exact List.isEmpty_iff.mpr (List.sublist_nil.mp hmerges.sublist)
  · obtain ⟨frames, hstrict⟩ := hstrictIff.mp h
    obtain ⟨less, hlax⟩ := hstrict.lax hcheck hregular
    exact ⟨⟨less⟩, hlaxIff.mpr ⟨frames, hlax⟩⟩

/-- A circle with a radius that is too large and a member of another name. -/
theorem shapes_addsUndeclared :
    ∃ frames, AddsUndeclared ⟨0, 0, false⟩ Schema.shapes
      (.array [.object [("kind", .string "circle"), ("name", .null), ("radius", .int 300)]]) frames
      ⟨[⟨["0", "radius"], ["definitions", "shape", "discriminator", "mapping", "circle",
        "properties", "radius", "type"]⟩]⟩
      ⟨[⟨["0", "radius"], ["definitions", "shape", "discriminator", "mapping", "circle",
        "properties", "radius", "type"]⟩,
        ⟨["0", "name"], ["definitions", "shape", "discriminator", "mapping", "circle"]⟩]⟩ := by
  let document : Value :=
    .array [.object [("kind", .string "circle"), ("name", .null), ("radius", .int 300)]]
  have hlax : (trace 9 ⟨0, 0, false⟩ Schema.shapes document).halt ≠ some .stackExhausted := by
    decide
  have hstrict : (trace 9 ⟨0, 0, true⟩ Schema.shapes document).halt ≠ some .stackExhausted := by
    decide
  cases strict_adds_undeclared ⟨0, 0, false⟩ Schema.shapes document rfl rfl rfl with
  | reports h h' hrelated =>
    cases (endsWith_of_halt_ne hlax).unique h
    cases (endsWith_of_halt_ne hstrict).unique h'
    exact hrelated.1
  | tooDeep h _ => cases (endsWith_of_halt_ne hlax).unique h
  | endless h _ => cases (endsWith_of_halt_ne hlax).unique ⟨0, fun stack _ => h stack⟩

end SchemaForms
