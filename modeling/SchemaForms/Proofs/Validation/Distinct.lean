import SchemaForms.Proofs.Schema.Keys
import SchemaForms.Proofs.Validation.Visits

/-!
# Violations are distinct

The parts of a step under a correct node concern different names: the members that are declared,
once in one of the two maps, and those that are not, or the items by their index; any other step has
one part at most. A walk records nothing outside the place where it stands, so what one part records
no other part does (`Regular.pairwise_apart`). Hence nothing is recorded twice in a whole walk,
however it ends (`violations_nodup`).
-/

namespace SchemaForms

/-! ## Walks that record different things -/

theorem Walk.nodup_violations_inTurn {walks : List Walk} {found : Nat}
    (hnodup : ∀ w ∈ walks, ∀ n, (w n).violations.Nodup)
    (hapart : walks.Pairwise fun w w' =>
      ∀ v n n', v ∈ (w n).violations → v ∉ (w' n').violations) :
    (inTurn walks found).violations.Nodup := by
  induction walks generalizing found with
  | nil => exact List.nodup_nil
  | cons w rest ih =>
    obtain ⟨hfirst, hrest⟩ := List.forall_mem_cons.mp hnodup
    obtain ⟨happarts, hothers⟩ := List.pairwise_cons.mp hapart
    rw [inTurn]
    cases hw : (w found).halt with
    | some cause =>
      rw [andThen_of_halt hw]
      exact hfirst found
    | none =>
      rw [andThen_of_end hw]
      refine List.nodup_append.mpr ⟨hfirst found, ih hrest hothers, fun v hv v' hv' heq => ?_⟩
      subst heq
      obtain ⟨w', hw', n, hmem⟩ := mem_violations_inTurn hv'
      exact happarts w' hw' v found n hv hmem

theorem toString_injective {m n : Nat} (h : toString m = toString n) : m = n := by
  have hdigits : Nat.toDigits 10 m = Nat.toDigits 10 n := by
    simpa [Nat.toString_eq_ofList_toDigits] using congrArg String.toList h
  rw [← Nat.ofDigitChars_ten_toDigits (n := m), hdigits, Nat.ofDigitChars_ten_toDigits]

/-! ## What the parts of a step may record -/

/-- The violations that a part may record. -/
def Part.Owns : Part → Violation → Prop
  | report w, v => v = w
  | halt _, _ => False
  | visit g, v => g.location.instancePath <+: v.instancePath

/-- Two parts never record the same. -/
def Part.Apart (p q : Part) : Prop := ∀ v, p.Owns v → ¬ q.Owns v

namespace Frame

variable {config : Config} {root : Schema} {stack found : Nat} {f g : Frame} {p q : Part}
  {name other : String} {v : Violation}

/-- The part is about one member or item: it visits it, misses it, or finds it undeclared. -/
inductive Concerns (f : Frame) (name : String) : Part → Prop
  | visit (keywords : List String) (s : Schema) (x : Value) :
      Concerns f name (.visit (f.enter name keywords s x))
  | missing : Concerns f name (.report (f.violation [] ["properties", name]))
  | undeclared : Concerns f name (.report (f.violation [name] []))

theorem Concerns.of_owns (hp : f.Concerns name p) (hv : p.Owns v) :
    v = f.violation [] ["properties", name] ∨
      f.location.instancePath ++ [name] <+: v.instancePath := by
  cases hp with
  | visit keywords s x => exact .inr hv
  | missing => exact .inl hv
  | undeclared =>
    obtain rfl := hv
    exact .inr List.prefix_rfl

theorem Concerns.apart (hp : f.Concerns name p) (hq : f.Concerns other q) (hne : name ≠ other) :
    p.Apart q := by
  have hbelow : ∀ token keyword, ¬ f.location.instancePath ++ [token] <+:
      (f.violation [] ["properties", keyword]).instancePath := by
    intro token keyword hprefix
    have := hprefix.length_le
    simp [violation] at this
  intro v hv hv'
  rcases hp.of_owns hv with rfl | hname
  · rcases hq.of_owns hv' with heq | hother
    · exact hne (by simpa [violation] using heq)
    · exact hbelow other name hother
  · rcases hq.of_owns hv' with rfl | hother
    · exact hbelow name other hname
    · have heq := (List.prefix_of_prefix_length_le hname hother (by simp)).eq_of_length (by simp)
      exact hne (by simpa using heq)

/-- Parts that concern different names are apart. -/
theorem pairwise_apart_of_names {names : List String} {parts : List Part}
    (h : List.Forall₂ (f.Concerns) names parts) (hnames : names.Nodup) :
    parts.Pairwise Part.Apart := by
  induction h with
  | nil => exact .nil
  | @cons name p names parts hp hrest ih =>
    obtain ⟨hname, hnames⟩ := List.nodup_cons.mp hnames
    refine List.pairwise_cons.mpr ⟨fun q hq => ?_, ih hnames⟩
    obtain ⟨other, hother, hq⟩ := exists_of_mem_forall₂ hrest hq
    exact hp.apart hq fun heq => hname (heq ▸ hother)

/-! ## The names of a step -/

theorem requiredParts_concern (members : List (String × Value))
    (required : List (String × Schema)) :
    List.Forall₂ f.Concerns (required.map (·.1))
      (required.map fun (name, sub) => f.requiredPart members name sub) := by
  rw [List.forall₂_map_left_iff, List.forall₂_map_right_iff, List.forall₂_same]
  rintro ⟨name, sub⟩ -
  simp only [requiredPart]
  cases members.lookup name with
  | some x => exact .visit _ _ _
  | none =>
    simp only [blame_eq]
    exact .missing

theorem optionalParts_concern (f : Frame) (members : List (String × Value))
    (optional : List (String × Schema)) :
    ∃ names, names.Sublist (optional.map (·.1)) ∧
      List.Forall₂ f.Concerns names
        (optional.filterMap fun (name, sub) => f.optionalPart members name sub) := by
  induction optional with
  | nil => exact ⟨[], .slnil, .nil⟩
  | cons entry rest ih =>
    obtain ⟨name, sub⟩ := entry
    obtain ⟨names, hsublist, hconcern⟩ := ih
    simp only [List.filterMap_cons, optionalPart]
    cases members.lookup name with
    | none => exact ⟨names, hsublist.cons _, hconcern⟩
    | some x =>
      exact ⟨name :: names, hsublist.cons_cons _, .cons (.visit _ _ _) hconcern⟩

theorem undeclaredParts_concern (config : Config) (f : Frame) (declared : List String)
    (members : List (String × Value)) :
    ∃ names, names.Sublist (members.map (·.1)) ∧ (∀ name ∈ names, name ∉ declared) ∧
      List.Forall₂ f.Concerns names (f.undeclaredParts config declared members) := by
  rw [undeclaredParts_eq]
  split_ifs
  · refine ⟨f.undeclaredKeys declared members, List.filter_sublist,
      fun name hname => (mem_undeclaredKeys_iff.mp hname).2.2, ?_⟩
    rw [List.forall₂_map_right_iff, List.forall₂_same]
    exact fun _ _ => .undeclared
  · exact ⟨[], List.nil_sublist _, by simp, .nil⟩

theorem memberParts_concern (config : Config) (f : Frame)
    {required optional : List (String × Schema)} {members : List (String × Value)}
    (hrequired : (required.map (·.1)).Nodup)
    (hoptional : (optional.map (·.1)).Nodup)
    (hdisjoint : ∀ name ∈ required.map (·.1), name ∉ optional.map (·.1))
    (hmembers : (members.map (·.1)).Nodup) :
    ∃ names, names.Nodup ∧
      List.Forall₂ f.Concerns names (f.memberParts config required optional members) := by
  obtain ⟨present, hpresent, hconcern⟩ := optionalParts_concern f members optional
  obtain ⟨others, hothers, hundeclared, hconcern'⟩ := undeclaredParts_concern config f
    ((required ++ optional).map (·.1)) members
  refine ⟨required.map (·.1) ++ (present ++ others), ?_,
    List.rel_append (requiredParts_concern members required) (List.rel_append hconcern hconcern')⟩
  rw [List.map_append] at hundeclared
  have hapart : ∀ name ∈ others, name ∉ required.map (·.1) ∧ name ∉ optional.map (·.1) :=
    fun name hname => by simpa only [List.mem_append, not_or] using hundeclared name hname
  refine List.nodup_append.mpr ⟨hrequired, List.nodup_append.mpr ⟨hpresent.nodup hoptional,
    hothers.nodup hmembers, ?_⟩, ?_⟩
  · rintro name hname _ hother rfl
    exact (hapart name hother).2 (hpresent.subset hname)
  · rintro name hname _ hother rfl
    rcases List.mem_append.mp hother with hmem | hmem
    · exact hdisjoint name hname (hpresent.subset hmem)
    · exact (hapart name hmem).1 hname

theorem elementParts_concern {items : List Value} (item : Schema) :
    List.Forall₂ f.Concerns ((List.range items.length).map toString)
      (items.mapIdx fun i x => .visit (f.enter (toString i) ["elements"] item x)) := by
  refine List.forall₂_iff_get.mpr ⟨by simp, fun i _ _ => ?_⟩
  simpa using .visit _ _ _

theorem valueParts_concern (member : Schema) (members : List (String × Value)) :
    List.Forall₂ f.Concerns (members.map (·.1))
      (members.map fun (key, x) => .visit (f.enter key ["values"] member x)) := by
  rw [List.forall₂_map_left_iff, List.forall₂_map_right_iff, List.forall₂_same]
  exact fun _ _ => .visit _ _ _

theorem pairwise_tagParts (R : Part → Part → Prop) (tag : String)
    (mapping : List (String × Schema)) (members : List (String × Value)) :
    (f.tagParts tag mapping members).Pairwise R := by
  rw [tagParts]
  repeat' split
  all_goals exact List.pairwise_singleton _ _

/-- **The parts of a step record different things**, if no map and no object has a key twice. -/
theorem Regular.pairwise_apart (config : Config) (hcheck : root.check = .ok ())
    (hf : Regular root f) (hschema : f.schema.distinctKeys) (hvalue : f.value.distinctKeys) :
    (f.parts config root).Pairwise Part.Apart := by
  have hc := hf.correct hcheck
  obtain ⟨-, -, hproperties, hoptional, -, -⟩ := Schema.distinctKeys_iff.mp hschema
  obtain ⟨r, hread⟩ : ∃ r : Rule, r.ReadOff f.schema := ⟨_, f.schema.rule_readOff⟩
  rw [parts_eq_of_readOff hc.sole hf.json hread]
  cases r with
  | anything => exact .nil
  | definition name =>
    obtain ⟨target, htarget⟩ := exists_lookup_of_mem_keys (hc.ref name hread)
    simp only [refParts_eq htarget]
    split_ifs <;> exact List.pairwise_singleton _ _
  | scalar typeName =>
    simp only [scalarParts]
    repeat' split
    all_goals simp
  | oneOf texts =>
    simp only [enumParts]
    repeat' split
    all_goals simp
  | elements item =>
    simp only [elementParts]
    split
    · exact pairwise_apart_of_names (elementParts_concern item)
        (List.nodup_range.map fun _ _ => toString_injective)
    · exact List.pairwise_singleton _ _
  | properties required optional =>
    obtain ⟨rfl, rfl, -⟩ := hread
    simp only [propertyParts]
    split
    case h_1 members hv =>
      rw [hv] at hvalue
      obtain ⟨names, hnames, hconcern⟩ := memberParts_concern config f
        (Schema.distinctKeysOfMap_iff.mp hproperties).1
        (Schema.distinctKeysOfMap_iff.mp hoptional).1 hc.disjoint
        (Value.distinctKeys_object_iff.mp hvalue).1
      exact pairwise_apart_of_names hconcern hnames
    case h_2 => exact List.pairwise_singleton _ _
  | values member =>
    simp only [valueParts]
    split
    case h_1 members hv =>
      rw [hv] at hvalue
      exact pairwise_apart_of_names (valueParts_concern member members)
        (Value.distinctKeys_object_iff.mp hvalue).1
    case h_2 => exact List.pairwise_singleton _ _
  | tagged tag mapping =>
    simp only [unionParts]
    split
    · exact pairwise_tagParts _ tag mapping _
    · exact List.pairwise_singleton _ _

/-! ## What a walk may record -/

theorem Enters.instancePath_extends (h : f.Enters config root g) :
    f.location.instancePath <+: g.location.instancePath := by
  cases h with
  | definition _ _ _ => exact List.prefix_rfl
  | tagged _ _ _ _ => exact List.prefix_rfl
  | _ => exact List.prefix_append _ _

/-- A walk records nothing outside the place where it stands. -/
theorem Regular.prefix_of_mem_violations (hcheck : root.check = .ok ()) (hf : Regular root f)
    (h : v ∈ (f.walk config root stack found).violations) :
    f.location.instancePath <+: v.instancePath := by
  obtain ⟨g, hvisits, hreport⟩ := exists_visit_of_mem_violations h
  have hg := hf.of_visits hcheck hvisits
  have hprefix : f.location.instancePath <+: g.location.instancePath := by
    clear hreport hg
    induction hvisits with
    | refl => exact List.prefix_rfl
    | tail hvisits hgoes ih =>
      have henters := (hf.of_visits hcheck hvisits).enters_of_goes hcheck hgoes
      exact ih.trans henters.instancePath_extends
  cases (hg.mem_parts_iff hcheck).mp hreport with
  | rejects _ => exact hprefix.trans (List.prefix_append _ _)

theorem Regular.owns_of_mem_violations (hcheck : root.check = .ok ()) (hf : Regular root f)
    (hp : p ∈ f.parts config root) (h : v ∈ (p.walk config root stack found).violations) :
    p.Owns v := by
  cases p with
  | report w => exact List.mem_singleton.mp h
  | halt cause => cases h
  | visit g =>
    exact (hf.of_enters (hf.enters_of_goes hcheck hp)).prefix_of_mem_violations hcheck h

theorem Enters.distinctKeys (h : f.Enters config root g) (hvalue : f.value.distinctKeys) :
    g.value.distinctKeys = true := by
  cases h with
  | definition _ _ _ => exact hvalue
  | item _ hv hx =>
    rw [hv] at hvalue
    exact Value.distinctKeys_array_iff.mp hvalue _ (List.mem_of_getElem? hx)
  | required _ hv hx =>
    rw [hv] at hvalue
    exact (Value.distinctKeys_object_iff.mp hvalue).2 _ (mem_of_lookup hx)
  | optional _ hv hx =>
    rw [hv] at hvalue
    exact (Value.distinctKeys_object_iff.mp hvalue).2 _ (mem_of_lookup hx)
  | member _ hv hx =>
    rw [hv] at hvalue
    exact (Value.distinctKeys_object_iff.mp hvalue).2 _ hx
  | tagged _ _ _ _ => exact hvalue

theorem Regular.nodup_violations (hcheck : root.check = .ok ()) (hroot : root.distinctKeys)
    (hf : Regular root f) (hvalue : f.value.distinctKeys) :
    (f.walk config root stack found).violations.Nodup := by
  induction stack generalizing f found with
  | zero =>
    rw [walk_zero]
    exact List.nodup_nil
  | succ stack ih =>
    have hapart := hf.pairwise_apart config hcheck (hf.checked.distinctKeys hroot) hvalue
    rw [walk_succ]
    refine Walk.nodup_violations_inTurn ?_ (List.pairwise_map.mpr ?_)
    · intro w hw n
      obtain ⟨p, hp, rfl⟩ := List.mem_map.mp hw
      cases p with
      | report v => exact List.nodup_singleton v
      | halt cause => exact List.nodup_nil
      | visit g =>
        have henters := hf.enters_of_goes hcheck hp
        exact ih (hf.of_enters henters) (henters.distinctKeys hvalue)
    · refine hapart.imp_of_mem fun {p q} hp hq hpq v n n' hv hv' => ?_
      exact hpq v (hf.owns_of_mem_violations hcheck hp hv) (hf.owns_of_mem_violations hcheck hq hv')

end Frame

/-- **No violation is reported twice**: under a root that passes its check, the pairs of paths in a
report are distinct. The maps of the root and the objects of the document hold every key once. -/
theorem violations_nodup (stack : Nat) (config : Config) (root : Schema) (document : Value)
    (report : Report) (hcheck : root.check = .ok ()) (hroot : root.distinctKeys)
    (hjson : document.isJson) (hdocument : document.distinctKeys)
    (h : (trace stack config root document).outcome config = .ok report) :
    report.violations.Nodup := by
  obtain ⟨_, rfl⟩ := Trace.outcome_eq_ok_iff.mp h
  exact (Frame.regular_start root hjson).nodup_violations hcheck hroot hdocument

theorem shapes_nodup :
    [(⟨["0"], ["definitions", "shape", "discriminator", "mapping", "pair", "properties", "first"]⟩ :
        Violation),
      ⟨["0", "second", "radius"],
        ["definitions", "shape", "discriminator", "mapping", "circle", "properties", "radius",
          "type"]⟩].Nodup :=
  violations_nodup 9 ⟨0, 0, true⟩ Schema.shapes
    (.array [.object [("kind", .string "pair"),
      ("second", .object [("kind", .string "circle"), ("radius", .int 300)])]])
    ⟨_⟩ rfl rfl rfl rfl rfl

end SchemaForms
