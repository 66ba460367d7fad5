import SchemaForms.Proofs.Schema.Loosened
import SchemaForms.Proofs.Validation.Beside
import SchemaForms.Proofs.Validation.Outcome

/-!
# Looser schemas accept more

What was valid under a root is valid after one node of it was made looser (`Schema.LoosensOnce`).
The frames of the two walks judge the same value inside as many references (`Frame.Loosened`). Where
a step of the first walk only goes on to further frames, so does the step of the second one, to
frames that the first walk goes on to as well or where nothing is demanded (`Loosened.step`): a walk
that finds nothing goes over to the looser root with one more level of the stack
(`Loosened.clean`).
-/

namespace SchemaForms

open SchemaForms.Frame

variable {config : Config} {root root' : Schema} {f g : Frame} {stack stack' found : Nat}

/-- Two locations inside as many references. -/
def SameDepth (l m : Location) : Prop := l.depth = m.depth

theorem sameDepth_kept : LocationsKept SameDepth fun _ _ => True where
  under h _ := h
  enter _ h _ := h
  follow _ h := congrArg (· + 1) h
  violation _ := trivial

namespace Frame

/-! ## One step -/

/-- Nothing is done where nothing is demanded. -/
theorem parts_of_empty (h : f.schema.form = .empty) : f.parts config root = [] := by
  have hrule : f.resolved.schema.rule = .anything := by
    rw [Schema.form] at h
    change f.schema.rule = .anything
    cases hr : f.schema.rule with
    | anything => rfl
    | _ => rw [hr] at h; cases h
  rw [parts, partsHere, hrule]

theorem walk_of_empty (h : f.schema.form = .empty) (hstack : 0 < stack) :
    f.walk config root stack found = ⟨[], none⟩ := by
  obtain ⟨stack, rfl⟩ : ∃ n, stack = n + 1 := ⟨stack - 1, by omega⟩
  rw [walk_succ, parts_of_empty h]
  rfl

/-- All that the step does is to go on to further frames. -/
def OnlyVisits (config : Config) (root : Schema) (f : Frame) : Prop :=
  ∀ p ∈ f.parts config root, ∃ f', p = .visit f'

theorem OnlyVisits.report_not_mem (h : OnlyVisits config root f) (v : Violation) :
    .report v ∉ f.parts config root := by
  intro hp
  obtain ⟨_, heq⟩ := h _ hp
  cases heq

/-- The part goes on to a frame where nothing is demanded, or to what became of a frame that the
first step goes on to. -/
def Follows (config : Config) (root : Schema) (f : Frame) (q : Part) : Prop :=
  ∃ g', q = .visit g' ∧ (g'.schema.form = .empty ∨
    ∃ f', .visit f' ∈ f.parts config root ∧
      Beside SameDepth (Schema.Within Schema.Loosening) f' g')

section step

variable {P : Schema → Schema → Prop} {q : Part} (hsole : f.schema.Sole) (hsole' : g.schema.Sole)
  (hjson : f.value.isJson) (hbeside : Beside SameDepth P f g)
  (hvisits : OnlyVisits config root f) (hq : q ∈ g.parts config root')

include hsole hsole' hjson hbeside hvisits hq

theorem follows_of_type {t t' : ScalarType} (h : f.schema.type = some t.name)
    (h' : g.schema.type = some t'.name) (hwiden : t.Widens t') : Follows config root f q := by
  have hparts : f.parts config root = f.scalarParts t.name :=
    parts_eq_of_readOff hsole hjson (r := .scalar _) ⟨h, t.name_ne_empty⟩
  rw [parts_eq_of_readOff hsole' (hbeside.value ▸ hjson) (r := .scalar _) ⟨h', t'.name_ne_empty⟩,
    mem_scalarParts_iff] at hq
  have hblamed : f.blame ["type"] ∈ f.parts config root := by
    rw [hparts, mem_scalarParts_iff]
    exact ⟨fun hv => hq.1 (hwiden.holds (hbeside.value ▸ hv)), rfl⟩
  exact absurd hblamed (hvisits.report_not_mem _)

theorem follows_of_enum {texts texts' : List String} (h : f.schema.enum = some texts)
    (h' : g.schema.enum = some texts') (hsubset : texts ⊆ texts') : Follows config root f q := by
  have hparts : f.parts config root = f.enumParts texts :=
    parts_eq_of_readOff hsole hjson (r := .oneOf _) h
  rw [parts_eq_of_readOff hsole' (hbeside.value ▸ hjson) (r := .oneOf _) h',
    mem_enumParts_iff] at hq
  have hblamed : f.blame ["enum"] ∈ f.parts config root := by
    rw [hparts, mem_enumParts_iff]
    exact ⟨fun text htext => hbeside.value ▸ hq.1 text (hsubset htext), rfl⟩
  exact absurd hblamed (hvisits.report_not_mem _)

/-- Under looser properties fewer members are required, those that were judged are judged as before
or not at all, and no fewer are declared. -/
theorem follows_of_properties (h : f.schema.Populates .properties)
    (h' : g.schema.Populates .properties)
    (hrequired : entries g.schema.properties ⊆ entries f.schema.properties)
    (hoptional : ∀ entry ∈ entries g.schema.optionalProperties,
      entry ∈ entries f.schema.properties ∨ entry ∈ entries f.schema.optionalProperties ∨
        entry.2 = .empty)
    (hkeys : ∀ key ∈ keys f.schema.properties ++ keys f.schema.optionalProperties,
      key ∈ keys g.schema.properties ++ keys g.schema.optionalProperties) :
    Follows config root f q := by
  have hparts : f.parts config root =
      f.propertyParts config f.schema.properties f.schema.optionalProperties :=
    parts_eq_propertyParts hsole hjson h
  rw [parts_eq_propertyParts hsole' (hbeside.value ▸ hjson) h'] at hq
  rcases mem_propertyParts_iff.mp hq with ⟨members, hv, hq⟩ | ⟨hv, rfl⟩
  · have hmem : ∀ p ∈ f.memberParts config (entries f.schema.properties)
        (entries f.schema.optionalProperties) members, p ∈ f.parts config root := fun p hp => by
      rw [hparts]
      exact mem_propertyParts_iff.mpr (.inl ⟨members, hbeside.value.trans hv, hp⟩)
    have hjudged : ∀ name sub x, (name, sub) ∈ entries f.schema.properties →
        members.lookup name = some x →
        .visit (f.enter name ["properties", name] sub x) ∈ f.parts config root :=
      fun name sub x hsub hx => hmem _ <|
        List.mem_append_left _ (mem_requiredPart_iff.mpr (.inl ⟨name, sub, x, hsub, hx, rfl⟩))
    rw [memberParts, List.mem_append, List.mem_append, mem_requiredPart_iff, mem_optionalPart_iff,
      mem_undeclaredParts_iff, List.map_append] at hq
    rcases hq with (⟨name, sub, x, hsub, hx, rfl⟩ | ⟨name, sub, hsub, hname, rfl⟩) |
      ⟨name, sub, x, hsub, hx, rfl⟩ | ⟨hstrict, key, hkey, htag, hdeclared, rfl⟩
    · refine ⟨_, rfl, .inr ⟨_, hjudged name sub x (hrequired hsub) hx, ?_⟩⟩
      exact hbeside.enter sameDepth_kept name (by simp) (.refl sub)
    · have hmissing := hmem (f.blame ["properties", name]) <| List.mem_append_left _ <|
        mem_requiredPart_iff.mpr (.inr ⟨name, sub, hrequired hsub, hname, rfl⟩)
      exact absurd hmissing (hvisits.report_not_mem _)
    · rcases hoptional _ hsub with hsub | hsub | rfl
      · -- A member that was required is judged by the same schema now that it is optional.
        refine ⟨_, rfl, .inr ⟨_, hjudged name sub x hsub hx, ?_⟩⟩
        exact ⟨hbeside.location, rfl, .refl sub, rfl⟩
      · refine ⟨_, rfl, .inr ⟨_, hmem _ (List.mem_append_right _ (List.mem_append_left _ ?_)),
          hbeside.enter sameDepth_kept name (by simp) (.refl sub)⟩⟩
        exact mem_optionalPart_iff.mpr ⟨name, sub, x, hsub, hx, rfl⟩
      · exact ⟨_, rfl, .inl rfl⟩
    · have hnot : key ∉ (entries f.schema.properties ++
          entries f.schema.optionalProperties).map (·.1) := by
        rw [List.map_append]
        exact fun hmem => hdeclared (hkeys key hmem)
      have hundeclared := hmem (f.blameMember key []) <| List.mem_append_right _ <|
        List.mem_append_right _ <| mem_undeclaredParts_iff.mpr
          ⟨hstrict, key, hkey, hbeside.tag ▸ htag, hnot, rfl⟩
      exact absurd hundeclared (hvisits.report_not_mem _)
  · rw [propertyParts_of_ne (hbeside.value ▸ hv)] at hparts
    exact absurd (hparts ▸ List.mem_singleton_self _) (hvisits.report_not_mem _)

/-- A tagged union with more choices leaves those that were there. -/
theorem follows_of_mapping {tag : String} {mapping mapping' : List (String × Schema)}
    (h : f.schema.discriminator = some ⟨tag, some mapping⟩)
    (h' : g.schema.discriminator = some ⟨tag, some mapping'⟩)
    (hmapping : ∀ text target, mapping.lookup text = some target →
      mapping'.lookup text = some target) : Follows config root f q := by
  have hparts : f.parts config root = f.unionParts tag mapping :=
    parts_eq_of_readOff hsole hjson (r := .tagged _ _) h
  rw [parts_eq_of_readOff hsole' (hbeside.value ▸ hjson) (r := .tagged _ _) h'] at hq
  rcases mem_unionParts_iff.mp hq with ⟨members, hv, hq⟩ | ⟨hv, rfl⟩
  · have hobject : (Value.object members).isJson := hv ▸ hbeside.value ▸ hjson
    have hmem : ∀ p ∈ f.tagParts tag mapping members, p ∈ f.parts config root := fun p hp => by
      rw [hparts]
      exact mem_unionParts_iff.mpr (.inl ⟨members, hbeside.value.trans hv, hp⟩)
    have htext : ∀ text, members.lookup tag = some (.string text) →
        ∃ target, mapping.lookup text = some target := fun text hx => by
      by_contra hn
      rw [← Option.isSome_iff_exists, Option.not_isSome_iff_eq_none, lookup_eq_none_iff_keys] at hn
      have hunknown := hmem (f.blameMember tag ["discriminator", "mapping"]) <|
        (mem_tagParts_iff hobject).mpr (.inr (.inr (.inl ⟨text, hx, hn, rfl⟩)))
      exact hvisits.report_not_mem _ hunknown
    rcases (mem_tagParts_iff hobject).mp hq with ⟨hkey, rfl⟩ | ⟨x, hx, hnot, rfl⟩ |
      ⟨text, hx, hnot, rfl⟩ | ⟨text, target, hx, htarget, rfl⟩
    · have hmissing := hmem (f.blame ["discriminator", "tag"]) <|
        (mem_tagParts_iff hobject).mpr (.inl ⟨hkey, rfl⟩)
      exact absurd hmissing (hvisits.report_not_mem _)
    · have hkind := hmem (f.blameMember tag ["discriminator", "tag"]) <|
        (mem_tagParts_iff hobject).mpr (.inr (.inl ⟨x, hx, hnot, rfl⟩))
      exact absurd hkind (hvisits.report_not_mem _)
    · obtain ⟨target, htarget⟩ := htext text hx
      have hnone := lookup_eq_none_iff_keys.mpr hnot
      rw [hmapping text target htarget] at hnone
      cases hnone
    · obtain ⟨target', htarget'⟩ := htext text hx
      obtain rfl := Option.some.inj ((hmapping text target' htarget').symm.trans htarget)
      refine ⟨_, rfl, .inr ⟨_, hmem _ ((mem_tagParts_iff hobject).mpr ?_),
        hbeside.choose sameDepth_kept tag text (.refl target')⟩⟩
      exact .inr (.inr (.inr ⟨text, target', hx, htarget', rfl⟩))
  · rw [unionParts_of_ne (hbeside.value ▸ hv)] at hparts
    exact absurd (hparts ▸ List.mem_singleton_self _) (hvisits.report_not_mem _)

/-- Under a node that was made looser a step goes on to nothing else. -/
theorem follows_of_loosening (hloosening : Schema.Loosening f.schema g.schema) :
    Follows config root f q := by
  generalize hs : f.schema = s at hloosening
  generalize ht : g.schema = t at hloosening
  cases hloosening with
  | type h hwiden =>
    exact follows_of_type hsole hsole' hjson hbeside hvisits hq (hs ▸ h) (by rw [ht]) hwiden
  | @enum before after text h _ =>
    refine follows_of_enum hsole hsole' hjson hbeside hvisits hq (hs ▸ h) (by rw [ht]) ?_
    intro choice hchoice
    rw [List.mem_append, List.mem_cons]
    exact (List.mem_append.mp hchoice).imp_right .inr
  | @moved sub before after front back name required h hrequired hoptional =>
    have hold : entries f.schema.properties = before ++ (name, sub) :: after := by
      rw [hs, h]
      rfl
    have hold' : entries f.schema.optionalProperties = front ++ back := by rw [hs, hoptional]
    have hnew : entries g.schema.properties = before ++ after := by rw [ht, hrequired]
    have hmap : g.schema.optionalProperties = some (front ++ (name, sub) :: back) := by rw [ht]
    have hnew' : entries g.schema.optionalProperties = front ++ (name, sub) :: back := by
      rw [hmap]
      rfl
    refine follows_of_properties hsole hsole' hjson hbeside hvisits hq (.inl ⟨_, hs ▸ h⟩)
      (.inr ⟨_, hmap⟩) ?_ ?_ ?_
    · intro entry
      simp only [hold, hnew, List.mem_append, List.mem_cons]
      tauto
    · intro entry
      simp only [hold, hold', hnew', List.mem_append, List.mem_cons]
      tauto
    · intro key
      simp only [keys, hold, hold', hnew, hnew', List.map_append, List.map_cons, List.mem_append,
        List.mem_cons]
      tauto
  | @optional front back name h _ _ hoptional =>
    have hold : entries f.schema.optionalProperties = front ++ back := by rw [hs, hoptional]
    have hsame : g.schema.properties = f.schema.properties := by rw [hs, ht]
    have hmap : g.schema.optionalProperties = some (front ++ (name, Schema.empty) :: back) := by
      rw [ht]
    have hnew : entries g.schema.optionalProperties = front ++ (name, Schema.empty) :: back := by
      rw [hmap]
      rfl
    refine follows_of_properties hsole hsole' hjson hbeside hvisits hq (hs ▸ h)
      (.inr ⟨_, hmap⟩) (hsame ▸ fun _ => id) ?_ ?_
    · intro entry
      simp only [hold, hnew, List.mem_append, List.mem_cons]
      rintro (hentry | rfl | hentry)
      · exact .inr (.inl (.inl hentry))
      · exact .inr (.inr rfl)
      · exact .inr (.inl (.inr hentry))
    · intro key
      simp only [keys, hsame, hold, hnew, List.map_append, List.map_cons, List.mem_append,
        List.mem_cons]
      tauto
  | @mapping target before after tag text h hfresh =>
    refine follows_of_mapping hsole hsole' hjson hbeside hvisits hq (hs ▸ h) (by rw [ht])
      fun choice chosen hchosen => ?_
    have hkey : choice ∈ (before ++ after).map (·.1) := List.mem_map_of_mem (mem_of_lookup hchosen)
    have hne : choice ≠ text := fun heq => hfresh (heq ▸ hkey)
    rw [lookup_append_cons_of_ne hne]
    exact hchosen
  | emptied h =>
    rw [parts_of_empty (ht ▸ h)] at hq
    cases hq

end step

/-! ## Whole walks -/

/-- The two frames judge one value inside as many references, the second one by what became of the
node of the first one. -/
structure Loosened (root root' : Schema) (f g : Frame) : Prop where
  beside : Beside SameDepth (Schema.Changed Schema.Loosening) f g
  left : Regular root f
  right : Regular root' g

namespace Loosened

variable (hedited : root.EditedOnce Schema.Loosening root') (hcheck : root.check = .ok ())
  (hcheck' : root'.check = .ok ())

include hedited hcheck hcheck'

/-- **A step that only goes on to further frames only does so under the looser root**, to what
became of them or where nothing is demanded. -/
theorem step (h : Loosened root root' f g) (hvisits : OnlyVisits config root f) :
    ∀ q ∈ g.parts config root', Follows config root f q := by
  obtain ⟨⟨hlocation, htag, hschema, hvalue⟩, hf, hg⟩ := h
  intro q hq
  rcases hschema with hloosening | hrule
  · exact follows_of_loosening (hf.correct hcheck).sole (hg.correct hcheck').sole hf.json
      ⟨hlocation, htag, hloosening, hvalue⟩ hvisits hq hloosening
  · have hbeside : Beside SameDepth (Schema.Changed Schema.Loosening) f g :=
      ⟨hlocation, htag, .inr hrule, hvalue⟩
    have hdepth : config.maxDepth = f.location.depth ↔ config.maxDepth = g.location.depth := by
      rw [show f.location.depth = g.location.depth from hlocation]
    have hparts : PartsAlike SameDepth (Schema.Within Schema.Loosening) (fun _ _ => True)
        (f.parts config root) (g.parts config root') :=
      hbeside.parts sameDepth_kept hrule hf.json fun name _ =>
        hbeside.refParts sameDepth_kept hedited.definitions hdepth name
    obtain ⟨p, hp, hpq⟩ := exists_of_mem_forall₂ hparts hq
    obtain ⟨f', rfl⟩ := hvisits p hp
    cases hpq with
    | visit hfg => exact ⟨_, rfl, .inr ⟨f', hp, hfg⟩⟩

/-- A walk that finds nothing goes over to the looser root. It takes one more level of the stack,
for a member that had no schema before. -/
theorem clean (h : Loosened root root' f g) (hlt : stack < stack')
    (hclean : f.walk config root stack found = ⟨[], none⟩) :
    g.walk config root' stack' found = ⟨[], none⟩ := by
  induction stack generalizing f g stack' with
  | zero =>
    rw [walk_zero] at hclean
    cases hclean
  | succ stack ih =>
    obtain ⟨stack', rfl⟩ : ∃ more, stack' = more + 1 := ⟨stack' - 1, by omega⟩
    rw [walk_succ, walkParts, Walk.inTurn_eq_clean_iff, List.forall_mem_map] at hclean ⊢
    have hvisits : OnlyVisits config root f := by
      intro p hp
      cases p with
      | visit f' => exact ⟨f', rfl⟩
      | report v => cases hclean _ hp
      | halt cause => cases hclean _ hp
    intro q hq
    obtain ⟨g', rfl, hempty | ⟨f', hf', hbeside⟩⟩ := h.step hedited hcheck hcheck' hvisits q hq
    · exact walk_of_empty hempty (by omega)
    · have hleft := h.left.of_enters (h.left.enters_of_goes hcheck hf')
      have hright := h.right.of_enters (h.right.enters_of_goes hcheck' hq)
      obtain ⟨hlocation, htag, hwithin, hvalue⟩ := hbeside
      exact ih ⟨⟨hlocation, htag, hwithin.changed, hvalue⟩, hleft, hright⟩ (by omega)
        (hclean _ hf')

end Loosened

end Frame

/-- **A looser schema never rejects what was valid.** Both roots pass their checks, and the second
one is the first one with one node made looser. If a run under the first root returns a valid
report, so does the run under the second one, with at most one level of the stack more. -/
theorem valid_of_loosensOnce (root root' : Schema) (hcheck : root.check = .ok ())
    (hcheck' : root'.check = .ok ()) (hloosens : root.LoosensOnce root') (config : Config)
    (document : Value) (hjson : document.isJson) :
    (∀ report, EndsWith config root document (.ok report) → report.isValid = true →
      ∃ report', EndsWith config root' document (.ok report') ∧ report'.isValid = true) ∧
    ∀ stack stack' report, (trace stack config root document).outcome config = .ok report →
      report.isValid = true → stack < stack' →
      ∃ report', (trace stack' config root' document).outcome config = .ok report' ∧
        report'.isValid = true := by
  have hclean : ∀ stack stack', trace stack config root document = ⟨[], none⟩ → stack < stack' →
      trace stack' config root' document = ⟨[], none⟩ := by
    intro stack stack' hclean hlt
    rw [trace_eq_walk] at hclean ⊢
    cases hloosens with
    | emptied h => exact walk_of_empty (f := start root' document) h (by omega)
    | node hedited =>
      have hstart : Loosened root root' (start root document) (start root' document) :=
        ⟨⟨rfl, rfl, hedited.changed, rfl⟩, regular_start root hjson, regular_start root' hjson⟩
      exact hstart.clean hedited hcheck hcheck' hlt hclean
  constructor
  · rintro report ⟨enough, hends⟩ hvalid
    have htrace := trace_eq_clean_of_isValid hcheck hjson (hends enough le_rfl) hvalid
    refine ⟨⟨[]⟩, ⟨enough + 1, fun stack' hle => ?_⟩, rfl⟩
    rw [hclean enough stack' htrace (by omega)]
    rfl
  · intro stack stack' report houtcome hvalid hlt
    have htrace := trace_eq_clean_of_isValid hcheck hjson houtcome hvalid
    refine ⟨⟨[]⟩, ?_, rfl⟩
    rw [hclean stack stack' htrace hlt]
    rfl

/-- Lists of which the nodes need no item any more: strict, a list with all items stays valid. -/
theorem linkedList_loosened :
    let looser : Schema := { Schema.linkedList with
      definitions := some [("node",
        { optionalProperties := some [("item", { type := some "int8" }),
            ("next", { ref := some "node" })] })] }
    let document : Value := .object [("item", .int 1), ("next", .object [("item", .int 2)])]
    Schema.linkedList.LoosensOnce looser ∧ looser.check = .ok () ∧
      (∃ report, EndsWith ⟨0, 0, true⟩ looser document (.ok report) ∧ report.isValid = true) ∧
      ∃ report, (trace 10 ⟨0, 0, true⟩ looser document).outcome ⟨0, 0, true⟩ = .ok report ∧
        report.isValid = true := by
  intro looser document
  have hloosens : Schema.linkedList.LoosensOnce looser :=
    .node (@Schema.EditedOnce.definition _ _ _ _ [] [] "node" rfl
      (.here (@Schema.Loosening.moved _ _ [] [] [] _ "item" none rfl rfl rfl)))
  obtain ⟨hends, hstacks⟩ := valid_of_loosensOnce Schema.linkedList looser rfl rfl hloosens
    ⟨0, 0, true⟩ document rfl
  have hvalid : EndsWith ⟨0, 0, true⟩ Schema.linkedList document (.ok ⟨[]⟩) := by
    have hhalt : (trace 9 ⟨0, 0, true⟩ Schema.linkedList document).halt ≠ some .stackExhausted := by
      decide
    exact endsWith_of_halt_ne hhalt
  exact ⟨hloosens, rfl, hends ⟨[]⟩ hvalid rfl, hstacks 9 10 ⟨[]⟩ rfl rfl (by omega)⟩

end SchemaForms
