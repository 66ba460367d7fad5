import SchemaForms.Proofs.Report
import SchemaForms.Proofs.Schema.Reordered
import SchemaForms.Proofs.Validation.Comparison
import SchemaForms.Proofs.Validation.Distinct

/-!
# The order of maps and members does not matter

Reordered roots and documents are walked through in another order. At frames that are reordered
(`Frame.Reordered`) a step does the same on both sides, up to order (`Reordered.parts`), so a whole
walk records the same violations up to order, and the sorted reports are equal
(`endsAlike_of_reordered`).
-/

namespace SchemaForms

open SchemaForms.Frame

variable {config : Config} {a b : Schema} {f g : Frame}

namespace Frame

/-- Two frames stand at the same place and judge the same value by the same schema, but for the
order of members and maps. -/
structure Reordered (f g : Frame) : Prop where
  location : f.location = g.location
  tag : f.tag = g.tag
  schema : f.schema.Reordered g.schema
  value : f.value.Reordered g.value

/-- Parts that do the same in some order. -/
def Shuffled : List Part → List Part → Prop := UpToOrder (Part.Matches Reordered List.Perm)

theorem shuffled_reports {vs ws : List Violation} (h : vs.Perm ws) :
    Shuffled (vs.map .report) (ws.map .report) := by
  refine ⟨vs.map .report, ?_, h.map _⟩
  rw [List.forall₂_same]
  intro p hp
  obtain ⟨v, -, rfl⟩ := List.mem_map.mp hp
  exact .report (.refl _)

theorem shuffled_visit (h : f.Reordered g) : Shuffled [.visit f] [.visit g] :=
  .of_forall₂ (.cons (.visit h) .nil)

namespace Reordered

variable {members members' : List (String × Value)} {s t : Schema} {x y : Value}

theorem violation_eq (h : f.Reordered g) (place keywords : List String) :
    f.violation place keywords = g.violation place keywords := by
  rw [violation, violation, h.location]

theorem blame (h : f.Reordered g) (keywords : List String) :
    Shuffled [f.blame keywords] [g.blame keywords] := by
  rw [blame_eq, blame_eq, h.violation_eq]
  exact shuffled_reports (.refl [g.violation [] keywords])

theorem blameMember (h : f.Reordered g) (key : String) (keywords : List String) :
    Shuffled [f.blameMember key keywords] [g.blameMember key keywords] := by
  rw [blameMember_eq, blameMember_eq, h.violation_eq]
  exact shuffled_reports (.refl [g.violation [key] keywords])

theorem enter (h : f.Reordered g) (token : String) (keywords : List String) (hs : s.Reordered t)
    (hx : x.Reordered y) : (f.enter token keywords s x).Reordered (g.enter token keywords t y) :=
  ⟨congrArg (·.enter token keywords) h.location, rfl, hs, hx⟩

theorem choose (h : f.Reordered g) (tag text : String) (hs : s.Reordered t) :
    (f.choose tag text s).Reordered (g.choose tag text t) :=
  ⟨congrArg (·.under ["discriminator", "mapping", text]) h.location, rfl, hs, h.value⟩

theorem follow (h : f.Reordered g) (name : String) (hs : s.Reordered t) :
    (f.follow name s).Reordered (g.follow name t) :=
  ⟨congrArg (·.follow name) h.location, rfl, hs, h.value⟩

/-! ## The parts of each rule -/

theorem scalarParts (h : f.Reordered g) (typeName : String) :
    Shuffled (f.scalarParts typeName) (g.scalarParts typeName) := by
  rw [Frame.scalarParts, Frame.scalarParts]
  cases ScalarType.ofName? typeName with
  | none => exact .of_forall₂ (.cons (.halt _) .nil)
  | some t =>
    simp only [h.value.admits_eq t]
    split_ifs
    · exact .of_forall₂ .nil
    · exact h.blame _

theorem enumParts (h : f.Reordered g) (texts : List String) :
    Shuffled (f.enumParts texts) (g.enumParts texts) := by
  have hvalue := h.value
  unfold Frame.enumParts
  generalize f.value = v, g.value = w at hvalue ⊢
  cases hvalue with
  | leaf _ _ =>
    cases v with
    | string text =>
      simp only
      split_ifs
      · exact .of_forall₂ .nil
      · exact h.blame _
    | _ => exact h.blame _
  | array _ _ => exact h.blame _
  | object _ _ => exact h.blame _

theorem elementParts (h : f.Reordered g) (hs : s.Reordered t) :
    Shuffled (f.elementParts s) (g.elementParts t) := by
  by_cases hv : ∃ items, f.value = .array items
  · obtain ⟨items, hv⟩ := hv
    obtain ⟨items', hw, hitems⟩ := h.value.exists_array hv
    simp only [Frame.elementParts, hv, hw]
    refine .of_forall₂ (List.forall₂_iff_get.mpr ⟨by simp [hitems.length_eq], fun i hi hi' => ?_⟩)
    simp only [List.get_eq_getElem, List.getElem_mapIdx]
    exact .visit (h.enter _ _ hs (hitems.get _ _))
  · have hne : ∀ items, f.value ≠ .array items := not_exists.mp hv
    rw [elementParts_of_ne hne, elementParts_of_ne (h.value.ne_array hne)]
    exact h.blame _

theorem valueParts (h : f.Reordered g) (hkeys : f.value.distinctKeys) (hs : s.Reordered t) :
    Shuffled (f.valueParts s) (g.valueParts t) := by
  by_cases hv : ∃ members, f.value = .object members
  · obtain ⟨members, hv⟩ := hv
    rw [hv] at hkeys
    obtain ⟨members', hw, hmembers⟩ :=
      h.value.exists_object hv (Value.distinctKeys_object_iff.mp hkeys).1
    simp only [Frame.valueParts, hv, hw]
    refine UpToOrder.map hmembers ?_
    rintro ⟨key, x⟩ ⟨_, y⟩ ⟨rfl, hxy⟩
    exact .visit (h.enter _ _ hs hxy)
  · have hne : ∀ members, f.value ≠ .object members := not_exists.mp hv
    rw [valueParts_of_ne hne, valueParts_of_ne (h.value.ne_object hne)]
    exact h.blame _

theorem requiredPart (h : f.Reordered g) (hnodup : (members.map (·.1)).Nodup)
    (hmembers : MapsAlike Value.Reordered members members') (name : String) (hs : s.Reordered t) :
    Part.Matches Reordered List.Perm (f.requiredPart members name s)
      (g.requiredPart members' name t) := by
  unfold Frame.requiredPart
  rcases rel_cases (hmembers.lookup hnodup name) with ⟨hx, hy⟩ | ⟨x, y, hx, hy, hxy⟩
  · simp only [hx, hy, blame_eq, h.violation_eq]
    exact .report (.refl _)
  · simp only [hx, hy]
    exact .visit (h.enter _ _ hs hxy)

theorem optionalPart (h : f.Reordered g) (hnodup : (members.map (·.1)).Nodup)
    (hmembers : MapsAlike Value.Reordered members members') (name : String) (hs : s.Reordered t) :
    Option.Rel (Part.Matches Reordered List.Perm) (f.optionalPart members name s)
      (g.optionalPart members' name t) := by
  unfold Frame.optionalPart
  rcases rel_cases (hmembers.lookup hnodup name) with ⟨hx, hy⟩ | ⟨x, y, hx, hy, hxy⟩
  · simp only [hx, hy, Option.map_none]
    exact .none
  · simp only [hx, hy, Option.map_some]
    exact .some (.visit (h.enter _ _ hs hxy))

theorem undeclaredParts (h : f.Reordered g) (config : Config) {declared declared' : List String}
    (hdeclared : declared.Perm declared')
    (hmembers : (members.map (·.1)).Perm (members'.map (·.1))) :
    Shuffled (f.undeclaredParts config declared members)
      (g.undeclaredParts config declared' members') := by
  have hkeys : (f.undeclaredKeys declared members).Perm (g.undeclaredKeys declared' members') := by
    refine (hmembers.filter _).trans (List.Perm.of_eq (List.filter_congr fun key _ => ?_))
    simp only [h.tag, List.contains_eq_mem, hdeclared.mem_iff]
  rw [undeclaredParts_eq, undeclaredParts_eq]
  split_ifs
  · simp only [h.violation_eq]
    simpa only [List.map_map, Function.comp_def] using
      shuffled_reports (hkeys.map fun key => g.violation [key] [])
  · exact .of_forall₂ .nil

theorem propertyParts (h : f.Reordered g) (config : Config) (hkeys : f.value.distinctKeys) :
    Shuffled (f.propertyParts config f.schema.properties f.schema.optionalProperties)
      (g.propertyParts config g.schema.properties g.schema.optionalProperties) := by
  obtain ⟨-, -, -, -, -, hrequired, hoptional, -, -⟩ := h.schema.agree
  by_cases hv : ∃ members, f.value = .object members
  · obtain ⟨members, hv⟩ := hv
    rw [hv] at hkeys
    have hnodup := (Value.distinctKeys_object_iff.mp hkeys).1
    obtain ⟨members', hw, hmembers⟩ := h.value.exists_object hv hnodup
    have hsub := Schema.mapsAlike_of_rel hrequired
    have hsub' := Schema.mapsAlike_of_rel hoptional
    simp only [Frame.propertyParts, hv, hw, memberParts]
    refine .append (.map hsub ?_) (.append (.filterMap hsub' ?_) ?_)
    · rintro ⟨name, s⟩ ⟨_, t⟩ ⟨rfl, hst⟩
      exact h.requiredPart hnodup hmembers name hst
    · rintro ⟨name, s⟩ ⟨_, t⟩ ⟨rfl, hst⟩
      exact h.optionalPart hnodup hmembers name hst
    · refine h.undeclaredParts config ?_ hmembers.keys_perm
      rw [List.map_append, List.map_append]
      exact hsub.keys_perm.append hsub'.keys_perm
  · have hne : ∀ members, f.value ≠ .object members := not_exists.mp hv
    rw [propertyParts_of_ne hne, propertyParts_of_ne (h.value.ne_object hne),
      isSome_eq_of_rel hrequired]
    exact h.blame _

theorem tagParts (h : f.Reordered g) (hjson : (Value.object members).isJson)
    (hkeys : (Value.object members).distinctKeys)
    (hmembers : MapsAlike Value.Reordered members members') {tag : String}
    {mapping mapping' : List (String × Schema)}
    (hmapping : MapsAlike Schema.Reordered mapping mapping')
    (hnodup : (mapping.map (·.1)).Nodup) :
    Shuffled (f.tagParts tag mapping members) (g.tagParts tag mapping' members') := by
  obtain ⟨hmembersNodup, hbelow⟩ := Value.distinctKeys_object_iff.mp hkeys
  rcases rel_cases (hmembers.lookup hmembersNodup tag) with ⟨hx, hy⟩ | ⟨x, y, hx, hy, hxy⟩
  · rw [tagParts_of_none hx, tagParts_of_none hy]
    exact h.blame _
  have hxjson := isJson_object_iff.mp hjson tag x (mem_of_lookup hx)
  obtain ⟨kind, hkind⟩ := exists_kindOf hxjson
  obtain ⟨kind', hkind'⟩ := exists_kindOf (hxy.proper ⟨hxjson, hbelow _ (mem_of_lookup hx)⟩).json
  by_cases htext : ∃ text, x = .string text
  · obtain ⟨text, rfl⟩ := htext
    obtain rfl := (hxy.eq_string_iff text).mp rfl
    rw [tagParts_of_text hx, tagParts_of_text hy]
    rcases rel_cases (hmapping.lookup hnodup text) with ⟨hs, ht⟩ | ⟨s, t, hs, ht, hst⟩
    · simp only [hs, ht]
      exact h.blameMember _ _
    · simp only [hs, ht]
      exact shuffled_visit (h.choose tag text hst)
  · have hne : ∀ text, x ≠ .string text := not_exists.mp htext
    rw [tagParts_of_ne hx hkind hne,
      tagParts_of_ne hy hkind' fun text => (hxy.eq_string_iff text).not.mp (hne text)]
    exact h.blameMember _ _

theorem unionParts (h : f.Reordered g) (hjson : f.value.isJson) (hkeys : f.value.distinctKeys)
    {tag : String} {mapping mapping' : List (String × Schema)}
    (hmapping : MapsAlike Schema.Reordered mapping mapping')
    (hnodup : (mapping.map (·.1)).Nodup) :
    Shuffled (f.unionParts tag mapping) (g.unionParts tag mapping') := by
  by_cases hv : ∃ members, f.value = .object members
  · obtain ⟨members, hv⟩ := hv
    rw [hv] at hkeys hjson
    obtain ⟨hmembersNodup, hbelow⟩ := Value.distinctKeys_object_iff.mp hkeys
    obtain ⟨members', hw, hmembers⟩ := h.value.exists_object hv hmembersNodup
    simp only [Frame.unionParts, hv, hw]
    exact h.tagParts hjson hkeys hmembers hmapping hnodup
  · have hne : ∀ members, f.value ≠ .object members := not_exists.mp hv
    rw [unionParts_of_ne hne, unionParts_of_ne (h.value.ne_object hne)]
    exact h.blame _

theorem refParts (h : f.Reordered g) (config : Config) {name : String}
    (hroots : a.Reordered b) (href : name ∈ keys a.definitions) :
    Shuffled (f.refParts config a name) (g.refParts config b name) := by
  have hnodup := (Schema.distinctKeysOfMap_iff.mp (Schema.distinctKeys_iff.mp hroots.1).1).1
  obtain ⟨s, hs⟩ := exists_lookup_of_mem_keys href
  have hlookup := (Schema.mapsAlike_of_rel hroots.agree.definitions).lookup hnodup name
  obtain ⟨t, ht, hst⟩ := exists_of_rel hlookup hs
  rw [refParts_eq hs, refParts_eq ht, h.location]
  split_ifs
  · exact .of_forall₂ (.cons (.halt _) .nil)
  · exact shuffled_visit (h.follow name hst)

/-- **A step does the same at reordered frames**, up to order. -/
theorem parts (h : f.Reordered g) (config : Config) (hroots : a.Reordered b)
    (hcheck : a.check = .ok ()) (hf : Regular a f) (hcheck' : b.check = .ok ())
    (hg : Regular b g) (hkeys : f.value.distinctKeys) :
    Shuffled (f.parts config a) (g.parts config b) := by
  have hc := hf.correct hcheck
  have hsole' := (hg.correct hcheck').sole
  have hagree := h.schema.agree
  obtain ⟨-, -, -, -, -, hunion⟩ := Schema.distinctKeys_iff.mp h.schema.1
  obtain ⟨r, hread⟩ : ∃ r : Rule, r.ReadOff f.schema := ⟨_, f.schema.rule_readOff⟩
  rw [parts_eq_of_readOff hc.sole hf.json hread]
  cases r with
  | anything =>
    have hread' : Rule.anything.ReadOff g.schema := fun form hg =>
      hread form (hagree.flip.populates hg)
    rw [parts_eq_of_readOff hsole' hg.json hread']
    exact .of_forall₂ .nil
  | definition name =>
    have hread' : (Rule.definition name).ReadOff g.schema := hagree.ref.symm.trans hread
    rw [parts_eq_of_readOff hsole' hg.json hread']
    exact h.refParts config hroots (hc.ref name hread)
  | scalar typeName =>
    have hread' : (Rule.scalar typeName).ReadOff g.schema :=
      ⟨hagree.type.symm.trans hread.1, hread.2⟩
    rw [parts_eq_of_readOff hsole' hg.json hread']
    exact h.scalarParts typeName
  | oneOf texts =>
    have hread' : (Rule.oneOf texts).ReadOff g.schema := hagree.enum.symm.trans hread
    rw [parts_eq_of_readOff hsole' hg.json hread']
    exact h.enumParts texts
  | elements item =>
    obtain ⟨item', hread', hitem⟩ := exists_of_rel hagree.elements hread
    rw [parts_eq_of_readOff hsole' hg.json (r := .elements item') hread']
    exact h.elementParts hitem
  | properties required optional =>
    obtain ⟨rfl, rfl, hpopulates⟩ := hread
    rw [parts_eq_propertyParts hsole' hg.json (hagree.populates hpopulates)]
    exact h.propertyParts config hkeys
  | values member =>
    obtain ⟨member', hread', hmember⟩ := exists_of_rel hagree.values hread
    rw [parts_eq_of_readOff hsole' hg.json (r := .values member') hread']
    exact h.valueParts hkeys hmember
  | tagged tag mapping =>
    obtain ⟨mapping', hread', hmapping⟩ := hagree.exists_mapping hread
    rw [parts_eq_of_readOff hsole' hg.json (r := .tagged tag mapping') hread']
    rw [show f.schema.discriminator = some ⟨tag, some mapping⟩ from hread] at hunion
    exact h.unionParts hf.json hkeys hmapping (Schema.distinctKeysOfMap_some hunion).1

end Reordered

end Frame

/-! ## Whole walks -/

/-- Reordered frames of two walks, both under a root that passes its check. -/
structure Frame.Paired (a b : Schema) (f g : Frame) : Prop where
  reordered : f.Reordered g
  left : Regular a f
  right : Regular b g
  distinct : f.value.distinctKeys

theorem Frame.Paired.parts (config : Config) (hroots : a.Reordered b)
    (hcheck : a.check = .ok ()) (hcheck' : b.check = .ok ()) (h : Paired a b f g) :
    UpToOrder (Part.Matches (Paired a b) List.Perm) (f.parts config a) (g.parts config b) := by
  obtain ⟨hreordered, hf, hg, hkeys⟩ := h
  refine (hreordered.parts config hroots hcheck hf hcheck' hg hkeys).imp_of_mem
    fun p hp q hq hpq => hpq.imp ?_
  rintro f' g' rfl rfl h
  have henters := hf.enters_of_goes hcheck hp
  exact ⟨h, hf.of_enters henters, hg.of_enters (hg.enters_of_goes hcheck' hq),
    henters.distinctKeys hkeys⟩

/-- A simulation up to order carries a whole walk over. -/
theorem Completes.shuffle (config : Config) {R : Frame → Frame → Prop} {parts parts' : List Part}
    (hstep : ∀ f g, R f g →
      UpToOrder (Part.Matches R List.Perm) (f.parts config a) (g.parts config b))
    (hparts : List.Forall₂ (Part.Matches R List.Perm) parts parts') :
    Carries List.Perm config a parts config b parts' := by
  refine Completes.simulate ⟨.refl [], List.Perm.append⟩ (fun f g hfg _ => ?_) hparts
  obtain ⟨middle, hmatches, hperm⟩ := hstep f g hfg
  refine ⟨middle, hmatches, fun violations found frames hmiddle => ?_⟩
  obtain ⟨found', frames', hg, hfound⟩ := hmiddle.perm hperm
  exact ⟨found', frames', hg, fun h => h.trans hfound⟩

theorem paired_start {x y : Value} (hab : a.Reordered b) (hxy : x.Reordered y)
    (hx : x.isJson) (hkeys : x.distinctKeys) : Paired a b (start a x) (start b y) :=
  ⟨⟨rfl, rfl, hab, hxy⟩, regular_start a hx, regular_start b (hxy.proper ⟨hx, hkeys⟩).json, hkeys⟩

/-- **The order of maps and members does not matter.** Of two roots that are the same but for the
order of their maps, one passes its check if the other does. Then two documents that are the same
but for the order of members are judged alike: where the runs return, the reports have the same
violations, each as often, and the sorted reports are equal. -/
theorem endsAlike_of_reordered (config : Config) (a b : Schema) (x y : Value)
    (hfree : config.maxErrors = 0) (hdistinct : a.distinctKeys) (hsame : a.same b)
    (hx : x.isJson) (hkeys : x.distinctKeys) (hxy : x.Reordered y) :
    (a.check = .ok () ↔ b.check = .ok ()) ∧
      (a.check = .ok () → EndsAlike
        (fun report report' => report.violations.Perm report'.violations ∧
          report.sorted = report'.sorted)
        config a x config b y) := by
  have hroots : a.Reordered b := ⟨hdistinct, hsame⟩
  refine ⟨hroots.check_eq_ok_iff, fun hcheck => ?_⟩
  have hcheck' := hroots.check_eq_ok_iff.mp hcheck
  have hy := (hxy.proper ⟨hx, hkeys⟩).json
  have hstart := paired_start hroots hxy hx hkeys
  have hto := Completes.shuffle config
    (fun f g h => h.parts config hroots hcheck hcheck') (.cons (.visit hstart) .nil)
  have hback := Completes.shuffle config (R := fun g f => Paired a b f g)
    (fun g f h => (h.parts config hroots hcheck hcheck').flip.imp_of_mem
      fun _ _ _ _ hpq => hpq.flip (fun _ _ => id) fun _ _ => List.Perm.symm)
    (.cons (.visit hstart) .nil)
  refine endsAlike_of_reports hcheck hx hcheck' hy rfl (fun report h => ?_) fun report' h' => ?_
  · obtain ⟨frames, h⟩ := (endsWith_ok_iff_completes hcheck hx hfree).mp h
    obtain ⟨violations, frames', h', hperm⟩ := hto _ _ h
    exact ⟨⟨violations⟩, (endsWith_ok_iff_completes hcheck' hy hfree).mpr ⟨frames', h'⟩, hperm,
      Report.sorted_eq_of_perm hperm⟩
  · obtain ⟨frames', h'⟩ := (endsWith_ok_iff_completes hcheck' hy hfree).mp h'
    obtain ⟨violations, frames, h, -⟩ := hback _ _ h'
    exact ⟨⟨violations⟩, (endsWith_ok_iff_completes hcheck hx hfree).mpr ⟨frames, h⟩⟩

/-- A pair of nothing: the two members that are missing are found in the order of the schema. -/
theorem shapes_reordered :
    let shapes' : Schema := { Schema.shapes with
      definitions := some [("shape", { discriminator := some ⟨"kind", some [
        ("pair", { properties := some [("second", { ref := some "shape" }),
          ("first", { ref := some "shape" })] }),
        ("circle", { properties := some [("radius", { type := some "uint8" })] })]⟩ })] }
    ∃ report report',
      EndsWith ⟨0, 0, true⟩ Schema.shapes
        (.array [.object [("kind", .string "pair"), ("name", .null)]]) (.ok report) ∧
      EndsWith ⟨0, 0, true⟩ shapes'
        (.array [.object [("name", .null), ("kind", .string "pair")]]) (.ok report') ∧
      report ≠ report' ∧ report.sorted = report'.sorted := by
  intro shapes'
  let x : Value := .array [.object [("kind", .string "pair"), ("name", .null)]]
  let y : Value := .array [.object [("name", .null), ("kind", .string "pair")]]
  have hxy : x.Reordered y := by
    refine .array rfl fun i v w hv hw => ?_
    cases i with
    | zero =>
      cases hv
      cases hw
      exact .of_perm (.swap _ _ _) (by decide)
    | succ i => cases hv
  have hx : (trace 9 ⟨0, 0, true⟩ Schema.shapes x).halt ≠ some .stackExhausted := by decide
  have hy : (trace 9 ⟨0, 0, true⟩ shapes' y).halt ≠ some .stackExhausted := by decide
  have halike := (endsAlike_of_reordered ⟨0, 0, true⟩ Schema.shapes shapes' x y rfl rfl rfl rfl
    rfl hxy).2 rfl
  refine ⟨_, _, endsWith_of_halt_ne hx, endsWith_of_halt_ne hy, by decide, ?_⟩
  cases halike with
  | reports h h' hrelated =>
    cases (endsWith_of_halt_ne hx).unique h
    cases (endsWith_of_halt_ne hy).unique h'
    exact hrelated.2
  | tooDeep h _ => cases (endsWith_of_halt_ne hx).unique h
  | endless h _ => cases (endsWith_of_halt_ne hx).unique ⟨0, fun stack _ => h stack⟩

end SchemaForms
