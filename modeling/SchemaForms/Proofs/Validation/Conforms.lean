import SchemaForms.Proofs.Validation.Visits

/-!
# What it means to conform

`Conforms` says for each form of schema which values conform to it, without places, counters or a
stack; a reference conforms as its definition does, so a derivation follows references as often as
it needs to. A report is valid exactly when the document conforms (`isValid_iff_conforms`). One
step is `conforms_iff_met`, and `Conforming.of_step` and `Conforming.of_enters`: a value conforms
to a correct node when the node does not reject it and all that a step goes on to conforms.
-/

namespace SchemaForms

variable {root s : Schema} {strict : Bool} {v : Value} {tag : Option String}

/-- The value conforms to the schema, of which references go to the definitions of the root. `tag`
is the member that chose the schema, if a tagged union did: it needs no declaration. -/
inductive Conforms (root : Schema) (strict : Bool) : Schema → Value → Option String → Prop
  | empty {s : Schema} {v : Value} {tag : Option String} (h : ∀ f, ¬ s.Populates f) :
      Conforms root strict s v tag
  | ref {s target : Schema} {v : Value} {tag : Option String} {name : String}
      (h : s.ref = some name) (htarget : (entries root.definitions).lookup name = some target)
      (hv : Conforms root strict target v none) : Conforms root strict s v tag
  | type {s : Schema} {v : Value} {tag : Option String} {t : ScalarType}
      (h : s.type = some t.name) (hv : t.Holds v) : Conforms root strict s v tag
  | enum {s : Schema} {tag : Option String} {texts : List String} {text : String}
      (h : s.enum = some texts) (htext : text ∈ texts) : Conforms root strict s (.string text) tag
  | elements {s item : Schema} {tag : Option String} {items : List Value}
      (h : s.elements = some item) (hitems : ∀ x ∈ items, Conforms root strict item x none) :
      Conforms root strict s (.array items) tag
  | properties {s : Schema} {tag : Option String} {members : List (String × Value)}
      (h : s.Populates .properties)
      (hpresent : ∀ name ∈ keys s.properties, name ∈ members.map (·.1))
      (hrequired : ∀ name sub x, (name, sub) ∈ entries s.properties →
        members.lookup name = some x → Conforms root strict sub x none)
      (hoptional : ∀ name sub x, (name, sub) ∈ entries s.optionalProperties →
        members.lookup name = some x → Conforms root strict sub x none)
      (hdeclared : strict = true → ∀ key ∈ members.map (·.1),
        key ∈ keys s.properties ∨ key ∈ keys s.optionalProperties ∨ tag = some key) :
      Conforms root strict s (.object members) tag
  | values {s member : Schema} {tag : Option String} {members : List (String × Value)}
      (h : s.values = some member)
      (hmembers : ∀ key x, (key, x) ∈ members → Conforms root strict member x none) :
      Conforms root strict s (.object members) tag
  | discriminator {s target : Schema} {tag : Option String} {unionTag text : String}
      {mapping : List (String × Schema)} {members : List (String × Value)}
      (h : s.discriminator = some ⟨unionTag, some mapping⟩)
      (htag : members.lookup unionTag = some (.string text))
      (htarget : mapping.lookup text = some target)
      (hv : Conforms root strict target (.object members) (some unionTag)) :
      Conforms root strict s (.object members) tag

/-- What a rule demands of a value. -/
def Rule.Met (root : Schema) (strict : Bool) (v : Value) (tag : Option String) : Rule → Prop
  | anything => True
  | definition name => ∃ target, (entries root.definitions).lookup name = some target ∧
      Conforms root strict target v none
  | scalar typeName => ∃ t : ScalarType, t.name = typeName ∧ t.Holds v
  | oneOf texts => ∃ text ∈ texts, v = .string text
  | elements item => ∃ items, v = .array items ∧ ∀ x ∈ items, Conforms root strict item x none
  | properties required optional => ∃ members, v = .object members ∧
      (∀ name ∈ keys required, name ∈ members.map (·.1)) ∧
      (∀ name sub x, (name, sub) ∈ entries required → members.lookup name = some x →
        Conforms root strict sub x none) ∧
      (∀ name sub x, (name, sub) ∈ entries optional → members.lookup name = some x →
        Conforms root strict sub x none) ∧
      (strict = true → ∀ key ∈ members.map (·.1),
        key ∈ keys required ∨ key ∈ keys optional ∨ tag = some key)
  | values member => ∃ members, v = .object members ∧
      ∀ key x, (key, x) ∈ members → Conforms root strict member x none
  | tagged unionTag mapping => ∃ members text target, v = .object members ∧
      members.lookup unionTag = some (.string text) ∧ mapping.lookup text = some target ∧
        Conforms root strict target (.object members) (some unionTag)

/-- Under a node of one group at most, to conform is to meet the rule of the node. -/
theorem conforms_iff_met (hs : s.Sole) :
    Conforms root strict s v tag ↔ s.rule.Met root strict v tag := by
  constructor
  · intro h
    cases h with
    | empty h =>
      rw [hs.rule_eq (r := .anything) h]
      trivial
    | ref h htarget hv =>
      rw [hs.rule_eq (r := .definition _) h]
      exact ⟨_, htarget, hv⟩
    | @type _ _ _ t h hv =>
      rw [hs.rule_eq (r := .scalar _) ⟨h, t.name_ne_empty⟩]
      exact ⟨t, rfl, hv⟩
    | enum h htext =>
      rw [hs.rule_eq (r := .oneOf _) h]
      exact ⟨_, htext, rfl⟩
    | elements h hitems =>
      rw [hs.rule_eq (r := .elements _) h]
      exact ⟨_, rfl, hitems⟩
    | properties h hpresent hrequired hoptional hdeclared =>
      rw [hs.rule_eq (r := .properties _ _) ⟨rfl, rfl, h⟩]
      exact ⟨_, rfl, hpresent, hrequired, hoptional, hdeclared⟩
    | values h hmembers =>
      rw [hs.rule_eq (r := .values _) h]
      exact ⟨_, rfl, hmembers⟩
    | discriminator h htag htarget hv =>
      rw [hs.rule_eq (r := .tagged _ _) h]
      exact ⟨_, _, _, rfl, htag, htarget, hv⟩
  · have hread : s.rule.ReadOff s := s.rule_readOff
    generalize s.rule = r at hread ⊢
    intro h
    cases r with
    | anything => exact .empty hread
    | definition name =>
      obtain ⟨target, htarget, hv⟩ := h
      exact .ref hread htarget hv
    | scalar typeName =>
      obtain ⟨t, rfl, hv⟩ := h
      exact .type hread.1 hv
    | oneOf texts =>
      obtain ⟨text, htext, rfl⟩ := h
      exact .enum hread htext
    | elements item =>
      obtain ⟨items, rfl, hitems⟩ := h
      exact .elements hread hitems
    | properties required optional =>
      obtain ⟨rfl, rfl, hpopulates⟩ := hread
      obtain ⟨members, rfl, hpresent, hrequired, hoptional, hdeclared⟩ := h
      exact .properties hpopulates hpresent hrequired hoptional hdeclared
    | values member =>
      obtain ⟨members, rfl, hmembers⟩ := h
      exact .values hread hmembers
    | tagged unionTag mapping =>
      obtain ⟨members, text, target, rfl, htag, htarget, hv⟩ := h
      exact .discriminator hread htag htarget hv

/-- The rule of a node that conforms, once it is known. -/
theorem Conforms.met {r : Rule} (hs : s.Sole) (h : Conforms root strict s v tag)
    (hread : r.ReadOff s) : r.Met root strict v tag := by
  rw [← hs.rule_eq hread]
  exact (conforms_iff_met hs).mp h

namespace Frame

variable {config : Config} {stack found : Nat} {f g : Frame}

/-- The value of the frame conforms to its schema. -/
def Conforming (config : Config) (root : Schema) (f : Frame) : Prop :=
  Conforms root config.strict f.schema f.value f.tag

/-! ## A step and what it goes on to -/

theorem Conforming.of_enters (hs : f.schema.Sole) (h : f.Conforming config root)
    (henters : f.Enters config root g) : g.Conforming config root := by
  cases henters with
  | definition href htarget _ =>
    obtain ⟨target, htarget', hv⟩ := h.met hs (r := .definition _) href
    obtain rfl := Option.some.inj (htarget'.symm.trans htarget)
    exact hv
  | item helements hvalue hx =>
    obtain ⟨items, hitems, hall⟩ := h.met hs (r := .elements _) helements
    obtain rfl := Value.array.inj (hitems.symm.trans hvalue)
    exact hall _ (List.mem_of_getElem? hx)
  | required hsub hvalue hx =>
    obtain ⟨map, hmap, _⟩ := mem_entries.mp hsub
    obtain ⟨members, hmembers, _, hrequired, _, _⟩ :=
      h.met hs (r := .properties _ _) ⟨rfl, rfl, .inl ⟨map, hmap⟩⟩
    obtain rfl := Value.object.inj (hmembers.symm.trans hvalue)
    exact hrequired _ _ _ hsub hx
  | optional hsub hvalue hx =>
    obtain ⟨map, hmap, _⟩ := mem_entries.mp hsub
    obtain ⟨members, hmembers, _, _, hoptional, _⟩ :=
      h.met hs (r := .properties _ _) ⟨rfl, rfl, .inr ⟨map, hmap⟩⟩
    obtain rfl := Value.object.inj (hmembers.symm.trans hvalue)
    exact hoptional _ _ _ hsub hx
  | member hvalues hvalue hx =>
    obtain ⟨members, hmembers, hall⟩ := h.met hs (r := .values _) hvalues
    obtain rfl := Value.object.inj (hmembers.symm.trans hvalue)
    exact hall _ _ hx
  | tagged hunion hvalue htag htarget =>
    obtain ⟨members, text, target, hmembers, htag', htarget', hv⟩ :=
      h.met hs (r := .tagged _ _) hunion
    obtain rfl := Value.object.inj (hmembers.symm.trans hvalue)
    obtain rfl := Value.string.inj (Option.some.inj (htag'.symm.trans htag))
    obtain rfl := Option.some.inj (htarget'.symm.trans htarget)
    rw [← hvalue] at hv
    exact hv

/-- A node rejects nothing that conforms to it. -/
theorem Conforming.not_rejects {place keywords : List String} {blamed : Value}
    (hs : f.schema.Sole) (h : f.Conforming config root) :
    ¬ Rejects config.strict f.tag f.schema f.value place blamed keywords := by
  rw [Conforming] at h
  generalize f.value = v at h
  intro hrejects
  cases hrejects with
  | @type _ t _ htype hname hn =>
    obtain ⟨t', ht', hv⟩ := h.met hs (r := .scalar _) ⟨htype, hname ▸ t.name_ne_empty⟩
    rw [ScalarType.name_injective (ht'.trans hname.symm)] at hv
    exact hn hv
  | enum henum hn =>
    obtain ⟨text, htext, hv⟩ := h.met hs (r := .oneOf _) henum
    exact hn text htext hv
  | elements helements hn =>
    obtain ⟨items, hv, _⟩ := h.met hs (r := .elements _) helements
    exact hn items hv
  | properties hmap hn =>
    obtain ⟨members, hv, _⟩ := h.met hs (r := .properties _ _) ⟨rfl, rfl, .inl ⟨_, hmap⟩⟩
    exact hn members hv
  | optionalProperties _ hmap hn =>
    obtain ⟨members, hv, _⟩ := h.met hs (r := .properties _ _) ⟨rfl, rfl, .inr ⟨_, hmap⟩⟩
    exact hn members hv
  | missing hsub hname =>
    obtain ⟨map, hmap, _⟩ := mem_entries.mp hsub
    obtain ⟨members, hmembers, hpresent, _⟩ :=
      h.met hs (r := .properties _ _) ⟨rfl, rfl, .inl ⟨map, hmap⟩⟩
    obtain rfl := Value.object.inj hmembers
    exact hname (hpresent _ (List.mem_map_of_mem hsub))
  | undeclared hpopulates hstrict hx hrequired hoptional htag =>
    obtain ⟨members, hmembers, _, _, _, hdeclared⟩ :=
      h.met hs (r := .properties _ _) ⟨rfl, rfl, hpopulates⟩
    obtain rfl := Value.object.inj hmembers
    rcases hdeclared hstrict _ (List.mem_map_of_mem hx) with hdeclared | hdeclared | hdeclared
    · exact hrequired hdeclared
    · exact hoptional hdeclared
    · exact htag hdeclared
  | values hvalues hn =>
    obtain ⟨members, hv, _⟩ := h.met hs (r := .values _) hvalues
    exact hn members hv
  | discriminator hunion hn =>
    obtain ⟨members, _, _, hv, _⟩ := h.met hs (r := .tagged _ _) hunion
    exact hn members hv
  | noTag hunion hkey =>
    obtain ⟨members, text, target, hmembers, htag, _⟩ := h.met hs (r := .tagged _ _) hunion
    obtain rfl := Value.object.inj hmembers
    rw [lookup_eq_none_iff_keys.mpr hkey] at htag
    cases htag
  | tagKind hunion hx htext =>
    obtain ⟨members, text, target, hmembers, htag, _⟩ := h.met hs (r := .tagged _ _) hunion
    obtain rfl := Value.object.inj hmembers
    exact htext text (Option.some.inj (hx.symm.trans htag))
  | mapping hunion hx htext =>
    obtain ⟨members, text, target, hmembers, htag, htarget, _⟩ :=
      h.met hs (r := .tagged _ _) hunion
    obtain rfl := Value.object.inj hmembers
    obtain rfl := Value.string.inj (Option.some.inj (hx.symm.trans htag))
    rw [lookup_eq_none_iff_keys.mpr htext] at htarget
    cases htarget

section step

variable {members : List (String × Value)}
  (hrejects : ∀ place blamed keywords,
    ¬ Rejects config.strict f.tag f.schema f.value place blamed keywords)
  (henters : ∀ g, f.Enters config root g → g.Conforming config root)

include hrejects henters

theorem met_properties_of_step (hv : f.value = .object members)
    (hpopulates : f.schema.Populates .properties) :
    (Rule.properties f.schema.properties f.schema.optionalProperties).Met root config.strict
      f.value f.tag := by
  rw [hv] at hrejects
  refine ⟨members, hv, fun name hname => ?_, fun name sub x hsub hx => ?_,
    fun name sub x hsub hx => ?_, fun hstrict key hkey => ?_⟩
  · obtain ⟨⟨_, sub⟩, hsub, rfl⟩ := List.mem_map.mp hname
    by_contra hn
    exact hrejects _ _ _ (.missing hsub hn)
  · exact henters _ (.required hsub hv hx)
  · exact henters _ (.optional hsub hv hx)
  · by_contra hn
    obtain ⟨hrequired, hn⟩ := not_or.mp hn
    obtain ⟨hoptional, htag⟩ := not_or.mp hn
    obtain ⟨⟨_, x⟩, hx, rfl⟩ := List.mem_map.mp hkey
    exact hrejects _ _ _ (.undeclared hpopulates hstrict hx hrequired hoptional htag)

theorem met_tagged_of_step {unionTag : String} {mapping : List (String × Schema)}
    (hv : f.value = .object members)
    (hunion : f.schema.discriminator = some ⟨unionTag, some mapping⟩) :
    (Rule.tagged unionTag mapping).Met root config.strict f.value f.tag := by
  rw [hv] at hrejects
  have hkey : unionTag ∈ members.map (·.1) := by
    by_contra hn
    exact hrejects _ _ _ (.noTag hunion hn)
  obtain ⟨x, hx⟩ := exists_lookup_of_mem_keys hkey
  have htext : ∃ text, x = .string text := by
    by_contra hn
    exact hrejects _ _ _ (.tagKind hunion hx (not_exists.mp hn))
  obtain ⟨text, rfl⟩ := htext
  have hmapping : text ∈ mapping.map (·.1) := by
    by_contra hn
    exact hrejects _ _ _ (.mapping hunion hx hn)
  obtain ⟨target, htarget⟩ := exists_lookup_of_mem_keys hmapping
  have hchosen := henters _ (.tagged hunion hv hx htarget)
  rw [Conforming, choose, hv] at hchosen
  exact ⟨members, text, target, hv, hx, htarget, hchosen⟩

/-- A value conforms when the node does not reject it and all that a step goes on to conforms. -/
theorem Conforming.of_step (hc : f.schema.Correct (keys root.definitions))
    (hdepth : ∀ name, f.schema.ref = some name → config.maxDepth ≠ f.location.depth) :
    f.Conforming config root := by
  have hread : f.schema.rule.ReadOff f.schema := f.schema.rule_readOff
  refine (conforms_iff_met hc.sole).mpr ?_
  generalize f.schema.rule = r at hread ⊢
  cases r with
  | anything => trivial
  | definition name =>
    obtain ⟨target, htarget⟩ := exists_lookup_of_mem_keys (hc.ref name hread)
    exact ⟨target, htarget, henters _ (.definition hread htarget (hdepth name hread))⟩
  | scalar typeName =>
    obtain ⟨t, _, ht⟩ := List.mem_map.mp (hc.type typeName hread.1 hread.2)
    by_contra hn
    exact hrejects _ _ _ (.type hread.1 ht fun hv => hn ⟨t, ht, hv⟩)
  | oneOf texts =>
    by_contra hn
    exact hrejects _ _ _ (.enum hread fun text htext hv => hn ⟨text, htext, hv⟩)
  | elements item =>
    by_cases hv : ∃ items, f.value = .array items
    · obtain ⟨items, hv⟩ := hv
      refine ⟨items, hv, fun x hx => ?_⟩
      obtain ⟨i, hi⟩ := List.getElem?_of_mem hx
      exact henters _ (.item hread hv hi)
    · exact absurd (.elements hread (not_exists.mp hv)) (hrejects _ _ _)
  | properties required optional =>
    obtain ⟨rfl, rfl, hpopulates⟩ := hread
    by_cases hv : ∃ members, f.value = .object members
    · obtain ⟨members, hv⟩ := hv
      exact met_properties_of_step hrejects henters hv hpopulates
    · cases hrequired : f.schema.properties with
      | some map => exact absurd (.properties hrequired (not_exists.mp hv)) (hrejects _ _ _)
      | none =>
        rcases hpopulates with ⟨map, hmap⟩ | ⟨map, hmap⟩
        · simp [hrequired] at hmap
        · exact absurd (.optionalProperties hrequired hmap (not_exists.mp hv)) (hrejects _ _ _)
  | values member =>
    by_cases hv : ∃ members, f.value = .object members
    · obtain ⟨members, hv⟩ := hv
      exact ⟨members, hv, fun key x hx => henters _ (.member hread hv hx)⟩
    · exact absurd (.values hread (not_exists.mp hv)) (hrejects _ _ _)
  | tagged unionTag mapping =>
    by_cases hv : ∃ members, f.value = .object members
    · obtain ⟨members, hv⟩ := hv
      exact met_tagged_of_step hrejects henters hv hread
    · exact absurd (.discriminator hread (not_exists.mp hv)) (hrejects _ _ _)

end step

/-! ## Whole walks -/

theorem Conforming.of_visits (hcheck : root.check = .ok ()) (hf : Regular root f)
    (h : f.Conforming config root) (hvisits : Visits config root f g) :
    g.Conforming config root := by
  induction hvisits with
  | refl => exact h
  | tail hvisits hgoes ih =>
    have hmid := hf.of_visits hcheck hvisits
    exact ih.of_enters (hmid.correct hcheck).sole (hmid.enters_of_goes hcheck hgoes)

/-- A walk records nothing of what conforms. -/
theorem Conforming.violations_eq_nil (hcheck : root.check = .ok ()) (hf : Regular root f)
    (h : f.Conforming config root) : (f.walk config root stack found).violations = [] := by
  refine List.eq_nil_iff_forall_not_mem.mpr fun v hv => ?_
  obtain ⟨g, hvisits, hreport⟩ := exists_visit_of_mem_violations hv
  have hg := hf.of_visits hcheck hvisits
  cases (hg.mem_parts_iff hcheck).mp hreport with
  | rejects hrejects =>
    exact (h.of_visits hcheck hf hvisits).not_rejects (hg.correct hcheck).sole hrejects

/-- A walk that finds nothing up to its end has gone through a derivation. -/
theorem Regular.conforming_of_clean (hcheck : root.check = .ok ()) (hf : Regular root f)
    (h : f.walk config root stack found = ⟨[], none⟩) : f.Conforming config root := by
  induction stack generalizing f with
  | zero =>
    rw [walk_zero] at h
    cases h
  | succ stack ih =>
    rw [walk_succ, walkParts, Walk.inTurn_eq_clean_iff] at h
    have hclean : ∀ p ∈ f.parts config root, p.walk config root stack found = ⟨[], none⟩ :=
      fun p hp => h _ (List.mem_map_of_mem hp)
    have hdoes : ∀ p, f.Does config root p → p.walk config root stack found = ⟨[], none⟩ :=
      fun p hp => hclean p ((hf.mem_parts_iff hcheck).mpr hp)
    refine .of_step ?_ ?_ (hf.correct hcheck) ?_
    · intro place blamed keywords hrejects
      cases hdoes _ (.rejects hrejects)
    · intro g henters
      exact ih (hf.of_enters henters) (hdoes _ (.enters henters))
    · intro name href hdepth
      cases hdoes _ (.tooDeep href hdepth)

end Frame

/-- **A report is valid exactly when the document conforms**, whatever the limits are. -/
theorem isValid_iff_conforms (stack : Nat) (config : Config) (root : Schema) (document : Value)
    (report : Report) (hcheck : root.check = .ok ()) (hjson : document.isJson)
    (h : (trace stack config root document).outcome config = .ok report) :
    report.isValid = true ↔ Conforms root config.strict root document none := by
  have hstart := Frame.regular_start root hjson
  obtain ⟨hhalt, rfl⟩ := Trace.outcome_eq_ok_iff.mp h
  rw [Frame.trace_eq_walk] at hhalt ⊢
  rw [Report.isValid, List.isEmpty_iff]
  constructor
  · intro hnil
    rcases hhalt with hend | hlimit
    · exact hstart.conforming_of_clean hcheck (congrArg₂ Trace.mk hnil hend)
    · exact absurd hnil (hstart.countsLimit hcheck 0 hlimit)
  · exact fun hconforms => Frame.Conforming.violations_eq_nil hcheck hstart hconforms

theorem linkedList_conforms :
    Conforms Schema.linkedList true Schema.linkedList
      (.object [("item", .int 1), ("next", .object [("item", .int 2)])]) none :=
  (isValid_iff_conforms 10 ⟨1, 5, true⟩ Schema.linkedList
    (.object [("item", .int 1), ("next", .object [("item", .int 2)])]) ⟨[]⟩ rfl rfl rfl).mp rfl

end SchemaForms
