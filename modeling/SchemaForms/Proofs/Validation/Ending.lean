import SchemaForms.Proofs.Validation.Endless
import SchemaForms.Proofs.Validation.Nesting

/-!
# How a run may end

A run under a root that passes its check never finds anything missing that it looks for. With
enough stack it ends with a report or at the limit on depth; without such a limit it may also go on
for ever, through definitions inside themselves (`ending_of_check`).
-/

namespace SchemaForms

variable {config : Config} {root : Schema} {document : Value} {stack : Nat}

/-- What a step looks up under a node of this form is there. -/
inductive Schema.Equipped (s root : Schema) : Form → Prop
  | empty (h : ∀ f, ¬ s.Populates f) : Equipped s root .empty
  | ref {name : String} {target : Schema} (h : s.ref = some name)
      (htarget : (entries root.definitions).lookup name = some target) : Equipped s root .ref
  | type {typeName : String} {t : ScalarType} (h : s.type = some typeName)
      (ht : ScalarType.ofName? typeName = some t)
      (hrange : t ≠ .boolean → t.isFloating = false → t ≠ .string → t ≠ .timestamp →
        ∃ bounds, t.range? = some bounds) : Equipped s root .type
  | enum {texts : List String} (h : s.enum = some texts) : Equipped s root .enum
  | elements {item : Schema} (h : s.elements = some item) : Equipped s root .elements
  | properties (h : s.Populates .properties) : Equipped s root .properties
  | values {member : Schema} (h : s.values = some member) : Equipped s root .values
  | discriminator {tag : String} {mapping : List (String × Schema)}
      (h : s.discriminator = some ⟨tag, some mapping⟩) : Equipped s root .discriminator

theorem Schema.Correct.equipped {s : Schema} (hc : s.Correct (keys root.definitions)) :
    s.Equipped root s.form := by
  have hread : s.rule.ReadOff s := s.rule_readOff
  rw [form]
  generalize s.rule = r at hread ⊢
  cases r with
  | anything => exact .empty hread
  | definition name =>
    obtain ⟨target, htarget⟩ := exists_lookup_of_mem_keys (hc.ref name hread)
    exact .ref hread htarget
  | scalar typeName =>
    obtain ⟨t, -, ht⟩ := List.mem_map.mp (hc.type typeName hread.1 hread.2)
    refine .type hread.1 ((ScalarType.ofName?_eq_some_iff typeName t).mpr ht) fun _ _ _ _ => ?_
    cases t <;> first | contradiction | exact ⟨_, rfl⟩
  | oneOf texts => exact .enum hread
  | elements item => exact .elements hread
  | properties required optional => exact .properties hread.2.2
  | values member => exact .values hread
  | tagged tag mapping => exact .discriminator hread

/-! ## The end of a run -/

open SchemaForms.Frame

/-- A limit on depth ends every run. -/
theorem maxDepth_eq_zero_of_endless (hcheck : root.check = .ok ()) (hjson : document.isJson)
    (h : Endless config root document) : config.maxDepth = 0 := by
  by_contra hne
  have hlimit : 1 ≤ config.maxDepth := Nat.pos_of_ne_zero hne
  refine halt_ne_of_nesting_le hcheck hjson
    (fun c around hopens => hopens.nesting_le_maxDepth hcheck hjson hlimit) ?_
  exact Trace.outcome_eq_stackExhausted_iff.mp (h _)

/-- **How a run ends under a root that passes its check**: with a report; at the limit on depth, if
there is one; or never, if there is none, and then through a branch along which references are open
without bound and some definition is entered inside itself. With any stack at all, nothing else
aborts the run, and at each frame that it visits the node passes the check of a node and has what
its form looks up. -/
theorem ending_of_check (config : Config) (root : Schema) (document : Value)
    (hcheck : root.check = .ok ()) (hjson : document.isJson) :
    ((∃ report, EndsWith config root document (.ok report)) ∨
      (config.maxDepth ≠ 0 ∧
        EndsWith config root document (.error (.tooDeep config.maxDepth))) ∨
      (config.maxDepth = 0 ∧ Endless config root document ∧
        ∃ frames, frames 0 = start root document ∧ Branch config root frames ∧
          (∀ limit, ∃ i, limit < (frames i).location.depth) ∧
          ∃ i j name, i < j ∧ (frames i).schema.ref = some name ∧
            (frames j).schema.ref = some name)) ∧
    (∀ stack abort, (trace stack config root document).outcome config = .error abort →
      abort.Expected config) ∧
    ∀ f, Visits config root (start root document) f →
      f.schema.checkNode (keys root.definitions) = .ok () ∧ f.schema.Equipped root f.schema.form ∧
        ∃ kind, f.value.kindOf = .ok kind := by
  have hstart := regular_start root hjson
  refine ⟨?_, fun stack abort h => expected_of_outcome_eq_error hcheck hjson h, fun f hf => ?_⟩
  · by_cases hexhausts : (start root document).Exhausts config root 0
    · have hendless : Endless config root document := fun stack =>
        Trace.outcome_eq_stackExhausted_iff.mpr (hexhausts stack)
      obtain ⟨frames, hzero, hbranch⟩ := hstart.exists_branch hcheck hexhausts
      rw [← hzero] at hstart
      exact .inr (.inr ⟨maxDepth_eq_zero_of_endless hcheck hjson hendless, hendless, frames, hzero,
        hbranch, hbranch.exists_depth_gt hcheck hstart, hbranch.exists_ref_again hcheck hstart⟩)
    · obtain ⟨stack, hhalt⟩ := not_forall.mp hexhausts
      rw [← trace_eq_walk] at hhalt
      have hends := endsWith_of_halt_ne hhalt
      cases houtcome : (trace stack config root document).outcome config with
      | ok report => exact .inl ⟨report, houtcome ▸ hends⟩
      | error abort =>
        cases expected_of_outcome_eq_error hcheck hjson houtcome with
        | tooDeep hlimit => exact .inr (.inl ⟨hlimit, houtcome ▸ hends⟩)
        | stackExhausted => exact absurd (Trace.outcome_eq_stackExhausted_iff.mp houtcome) hhalt
  · have hregular := hstart.of_visits hcheck hf
    exact ⟨Schema.check_eq_ok_iff_checkNode.mp hcheck f.schema hregular.checked,
      (hregular.correct hcheck).equipped, exists_kindOf hregular.json⟩

theorem linkedList_not_endless :
    Schema.linkedList.check = .ok () ∧
      ¬ Endless ⟨0, 2, false⟩ Schema.linkedList (.object [("item", .int 1)]) := by
  refine ⟨rfl, fun hendless => ?_⟩
  have hending :=
    ending_of_check ⟨0, 2, false⟩ Schema.linkedList (.object [("item", .int 1)]) rfl rfl
  rcases hending.1 with ⟨report, enough, hends⟩ | ⟨_, enough, hends⟩ | ⟨hzero, _⟩
  · cases (hends enough (Nat.le_refl _)).symm.trans (hendless enough)
  · cases (hends enough (Nat.le_refl _)).symm.trans (hendless enough)
  · cases hzero

end SchemaForms
