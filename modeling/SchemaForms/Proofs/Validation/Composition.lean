import SchemaForms.Proofs.Validation.Distinct
import SchemaForms.Proofs.Validation.Moved

/-!
# Validation is compositional

What a run under a schema finds is put together from what runs of their own find under the schemas
directly below it, with the same definitions, moved to the place of the item or member
(`returns_elements_iff` and so on for each form, and all of them together in `validation_composes`).
What a run finds behind a reference is moved to the definition (`returns_of_ref`).
-/

namespace SchemaForms

open SchemaForms.Frame

variable {config : Config} {root s : Schema} {document x : Value} {violations : List Violation}

/-- A run of its own under a schema, with these definitions, returns these violations. -/
def Returns (config : Config) (definitions : Option (List (String × Schema))) (s : Schema)
    (x : Value) (found : List Violation) : Prop :=
  EndsWith config (s.within definitions) x (.ok ⟨found⟩)

/-- The violations of a run of its own, moved to a place. -/
def Piece (config : Config) (definitions : Option (List (String × Schema)))
    (tokens keywords : List String) (s : Schema) (x : Value) (violations : List Violation) : Prop :=
  ∃ found, Returns config definitions s x found ∧
    violations = found.map (Violation.moved tokens keywords)

/-- The violations of a declared member: those of its own run, or others if it is not there. -/
def MemberPiece (config : Config) (definitions : Option (List (String × Schema)))
    (members : List (String × Value)) (keyword : String) (missing : String → List Violation)
    (entry : String × Schema) (violations : List Violation) : Prop :=
  match members.lookup entry.1 with
  | some x => Piece config definitions [entry.1] [keyword, entry.1] entry.2 x violations
  | none => violations = missing entry.1

/-- The violations of the members that a schema with properties does not declare. -/
def Schema.undeclaredIn (s : Schema) (members : List (String × Value)) : List Violation :=
  ((members.map (·.1)).filter fun key =>
    !(keys s.properties ++ keys s.optionalProperties).contains key).map fun key => ⟨[key], []⟩

/-! ## The first step -/

/-- A run returns what the parts of its first step complete with. -/
theorem returns_iff_parts (hcheck : root.check = .ok ()) (hfree : config.maxErrors = 0)
    (hjson : document.isJson) :
    EndsWith config root document (.ok ⟨violations⟩) ↔
      ∃ frames, Completes config root ((start root document).parts config root) violations
        frames := by
  rw [endsWith_ok_iff_completes hcheck hjson hfree, Completes.exists_visit_iff]

theorem returns_iff_completes (hcheck : root.check = .ok ()) (hfree : config.maxErrors = 0)
    (hs : root.CheckedNode s) (hjson : x.isJson) {found : List Violation} :
    Returns config root.definitions s x found ↔
      ∃ frames, Completes config (s.within root.definitions)
        [.visit (start (s.within root.definitions) x)] found frames :=
  endsWith_ok_iff_completes (hs.check_within hcheck) hjson hfree

/-- The first step goes on to a member or an item: what it completes with is a moved run. -/
theorem completes_enter_iff_piece (hcheck : root.check = .ok ()) (hfree : config.maxErrors = 0)
    (hs : root.CheckedNode s) (hjson : x.isJson) (token : String) (keywords : List String) :
    (∃ frames, Completes config root
      [.visit ((start root document).enter token keywords s x)] violations frames) ↔
      Piece config root.definitions [token] keywords s x violations := by
  have hmoved : Moved [token] keywords 0 (start (s.within root.definitions) x)
      ((start root document).enter token keywords s x) := by
    refine ⟨?_, rfl, rfl, rfl⟩
    simp [start, enter, Location.start, Location.enter, Location.moved, movedPath]
  have hplaced : Placement (s.within root.definitions) root [token] keywords 0
      (start (s.within root.definitions) x) ((start root document).enter token keywords s x) :=
    ⟨hmoved, regular_start _ hjson, hs, hjson⟩
  rw [hplaced.completes_iff (hs.check_within hcheck) hcheck rfl]
  simp only [Piece, returns_iff_completes hcheck hfree hs hjson]

/-! ## The forms -/

/-- An array is judged item by item. -/
theorem returns_elements_iff (hcheck : root.check = .ok ()) (hfree : config.maxErrors = 0)
    {items : List Value} (hs : root.elements = some s) (hjson : (Value.array items).isJson) :
    EndsWith config root (.array items) (.ok ⟨violations⟩) ↔
      ∃ pieces, List.Forall₂
        (fun item piece =>
          Piece config root.definitions [toString item.2] ["elements"] s item.1 piece)
        items.zipIdx pieces ∧ violations = pieces.flatten := by
  have hsole := ((regular_start root hjson).correct hcheck).sole
  have hparts : (start root (.array items)).parts config root = items.zipIdx.flatMap fun item =>
      [.visit ((start root (.array items)).enter (toString item.2) ["elements"] s item.1)] := by
    rw [parts_eq_of_readOff hsole hjson (r := .elements s) hs]
    simp only [elementParts, start, List.mapIdx_eq_zipIdx_map, List.map_eq_flatMap]
  rw [returns_iff_parts hcheck hfree hjson, hparts, Completes.flatMap_iff]
  refine exists_congr fun pieces => and_congr_left fun _ =>
    forall₂_congr_of_mem fun item hitem piece => ?_
  have hitemJson := isJson_array_iff.mp hjson item.1 (List.fst_mem_of_mem_zipIdx hitem)
  exact completes_enter_iff_piece hcheck hfree (.child .root (.elements hs)) hitemJson _ _

/-- An object of members of one schema is judged member by member. -/
theorem returns_values_iff (hcheck : root.check = .ok ()) (hfree : config.maxErrors = 0)
    {members : List (String × Value)} (hs : root.values = some s)
    (hjson : (Value.object members).isJson) :
    EndsWith config root (.object members) (.ok ⟨violations⟩) ↔
      ∃ pieces, List.Forall₂
        (fun member piece => Piece config root.definitions [member.1] ["values"] s member.2 piece)
        members pieces ∧ violations = pieces.flatten := by
  have hsole := ((regular_start root hjson).correct hcheck).sole
  have hparts : (start root (.object members)).parts config root = members.flatMap fun member =>
      [.visit ((start root (.object members)).enter member.1 ["values"] s member.2)] := by
    rw [parts_eq_of_readOff hsole hjson (r := .values s) hs]
    simp only [valueParts, start, List.map_eq_flatMap]
  rw [returns_iff_parts hcheck hfree hjson, hparts, Completes.flatMap_iff]
  refine exists_congr fun pieces => and_congr_left fun _ =>
    forall₂_congr_of_mem fun member hmember piece => ?_
  have hmemberJson := isJson_object_iff.mp hjson member.1 member.2 hmember
  exact completes_enter_iff_piece hcheck hfree (.child .root (.values hs)) hmemberJson _ _

section members
variable {members : List (String × Value)} {entry : String × Schema}

/-- The parts for the declared members of an object. -/
def Frame.declaredParts (f : Frame) (members : List (String × Value)) : List Part :=
  ((entries f.schema.properties).map fun (name, sub) => f.requiredPart members name sub) ++
    (entries f.schema.optionalProperties).filterMap fun (name, sub) =>
      f.optionalPart members name sub

theorem Frame.parts_eq_declaredParts {f : Frame} (hsole : f.schema.Sole) (hjson : f.value.isJson)
    (hform : f.schema.form = .properties) (hv : f.value = .object members) :
    f.parts config root = f.declaredParts members ++
      (if config.strict then
        (f.undeclaredKeys (keys f.schema.properties ++ keys f.schema.optionalProperties)
          members).map fun key => f.violation [key] []
      else []).map .report := by
  have hpopulates : f.schema.Populates .properties :=
    Schema.populates_of_form_eq hform (by decide)
  rw [parts_eq_propertyParts hsole hjson hpopulates]
  simp only [propertyParts, hv, memberParts, declaredParts, undeclaredParts_eq, List.append_assoc,
    keys, List.map_append]
  split_ifs
  · rw [List.map_map]
    rfl
  · rfl

theorem completes_requiredPart_iff (hcheck : root.check = .ok ()) (hfree : config.maxErrors = 0)
    (hjson : (Value.object members).isJson) (hentry : entry ∈ entries root.properties) :
    (∃ frames, Completes config root
      [(start root (.object members)).requiredPart members entry.1 entry.2] violations frames) ↔
      MemberPiece config root.definitions members "properties"
        (fun name => [⟨[], ["properties", name]⟩]) entry violations := by
  obtain ⟨map, hmap, hmem⟩ := mem_entries.mp hentry
  unfold requiredPart MemberPiece
  cases hx : members.lookup entry.1 with
  | none =>
    simp only [blame_eq]
    exact Completes.exists_reports_iff [_]
  | some x =>
    have hxJson := isJson_object_iff.mp hjson entry.1 x (mem_of_lookup hx)
    exact completes_enter_iff_piece hcheck hfree (.child .root (.required hmap hmem)) hxJson _ _

theorem completes_optionalPart_iff (hcheck : root.check = .ok ()) (hfree : config.maxErrors = 0)
    (hjson : (Value.object members).isJson) (hentry : entry ∈ entries root.optionalProperties) :
    (∃ frames, Completes config root
      ((start root (.object members)).optionalPart members entry.1 entry.2).toList violations
        frames) ↔
      MemberPiece config root.definitions members "optionalProperties" (fun _ => []) entry
        violations := by
  obtain ⟨map, hmap, hmem⟩ := mem_entries.mp hentry
  unfold optionalPart MemberPiece
  cases hx : members.lookup entry.1 with
  | none => exact Completes.exists_reports_iff []
  | some x =>
    have hxJson := isJson_object_iff.mp hjson entry.1 x (mem_of_lookup hx)
    exact completes_enter_iff_piece hcheck hfree (.child .root (.optional hmap hmem)) hxJson _ _

theorem completes_declaredParts_iff (hcheck : root.check = .ok ()) (hfree : config.maxErrors = 0)
    (hjson : (Value.object members).isJson) :
    (∃ frames, Completes config root ((start root (.object members)).declaredParts members)
      violations frames) ↔
      ∃ required optional,
        List.Forall₂ (MemberPiece config root.definitions members "properties"
          fun name => [⟨[], ["properties", name]⟩]) (entries root.properties) required ∧
        List.Forall₂ (MemberPiece config root.definitions members "optionalProperties" fun _ => [])
          (entries root.optionalProperties) optional ∧
        violations = required.flatten ++ optional.flatten := by
  have hrequired : ∀ pieces, List.Forall₂ (fun entry piece => ∃ frames, Completes config root
      [(start root (.object members)).requiredPart members entry.1 entry.2] piece frames)
      (entries root.properties) pieces ↔ List.Forall₂ _ _ _ := fun _ =>
    forall₂_congr_of_mem fun _ hentry _ => completes_requiredPart_iff hcheck hfree hjson hentry
  have hoptional : ∀ pieces, List.Forall₂ (fun entry piece => ∃ frames, Completes config root
      ((start root (.object members)).optionalPart members entry.1 entry.2).toList piece frames)
      (entries root.optionalProperties) pieces ↔ List.Forall₂ _ _ _ := fun _ =>
    forall₂_congr_of_mem fun _ hentry _ => completes_optionalPart_iff hcheck hfree hjson hentry
  have hparts : (start root (.object members)).declaredParts members =
      ((entries root.properties).flatMap fun entry =>
        [(start root (.object members)).requiredPart members entry.1 entry.2]) ++
      (entries root.optionalProperties).flatMap fun entry =>
        ((start root (.object members)).optionalPart members entry.1 entry.2).toList := by
    rw [← List.map_eq_flatMap, ← List.filterMap_eq_flatMap_toList]
    rfl
  simp only [hparts, Completes.exists_append_iff, Completes.flatMap_iff, hrequired, hoptional]
  constructor
  · rintro ⟨_, _, ⟨required, hrequired, rfl⟩, ⟨optional, hoptional, rfl⟩, rfl⟩
    exact ⟨required, optional, hrequired, hoptional, rfl⟩
  · rintro ⟨required, optional, hrequired, hoptional, rfl⟩
    exact ⟨_, _, ⟨required, hrequired, rfl⟩, ⟨optional, hoptional, rfl⟩, rfl⟩

theorem undeclared_start (root : Schema) (members : List (String × Value)) :
    ((start root (.object members)).undeclaredKeys
      (keys root.properties ++ keys root.optionalProperties) members).map
        (fun key => (start root (.object members)).violation [key] []) =
      root.undeclaredIn members := by
  refine congrArg₂ List.map (funext fun key => rfl) (List.filter_congr fun key _ => ?_)
  simp only [start, ne_eq, reduceCtorEq, not_false_eq_true, decide_true, Bool.true_and]

/-- An object with properties is judged by the declared members in the order of the schema, first
those that are required, and then, if that is asked for, by the members that are not declared. -/
theorem returns_properties_iff (hcheck : root.check = .ok ()) (hfree : config.maxErrors = 0)
    (hform : root.form = .properties) (hjson : (Value.object members).isJson) :
    EndsWith config root (.object members) (.ok ⟨violations⟩) ↔
      ∃ required optional,
        List.Forall₂ (MemberPiece config root.definitions members "properties"
          fun name => [⟨[], ["properties", name]⟩]) (entries root.properties) required ∧
        List.Forall₂ (MemberPiece config root.definitions members "optionalProperties" fun _ => [])
          (entries root.optionalProperties) optional ∧
        violations = required.flatten ++ (optional.flatten ++
          if config.strict then root.undeclaredIn members else []) := by
  have hsole := ((regular_start root hjson).correct hcheck).sole
  have hparts : (start root (.object members)).parts config root =
      (start root (.object members)).declaredParts members ++
        (if config.strict then root.undeclaredIn members else []).map .report := by
    rw [parts_eq_declaredParts hsole hjson hform rfl, ← undeclared_start]
    rfl
  rw [returns_iff_parts hcheck hfree hjson, hparts]
  simp only [Completes.exists_append_iff, completes_declaredParts_iff hcheck hfree hjson,
    Completes.exists_reports_iff]
  constructor
  · rintro ⟨_, _, ⟨required, optional, hrequired, hoptional, rfl⟩, rfl, rfl⟩
    exact ⟨required, optional, hrequired, hoptional, List.append_assoc _ _ _⟩
  · rintro ⟨required, optional, hrequired, hoptional, rfl⟩
    exact ⟨_, _, ⟨required, optional, hrequired, hoptional, rfl⟩, rfl,
      (List.append_assoc _ _ _).symm⟩

end members

/-! ## Tagged unions -/

theorem Frame.Regular.prefix_of_owns {f : Frame} {p : Part} {v : Violation}
    (hcheck : root.check = .ok ()) (hf : Regular root f) (hp : p ∈ f.parts config root)
    (hv : p.Owns v) : f.location.instancePath <+: v.instancePath := by
  cases (hf.mem_parts_iff hcheck).mp hp with
  | enters henters => exact henters.instancePath_extends.trans hv
  | rejects _ =>
    obtain rfl := hv
    exact List.prefix_append _ _
  | tooDeep _ _ => cases hv

/-- What parts record is recorded by one of them, and in its place. -/
theorem Completes.exists_owns {parts : List Part} {frames : List Frame} {v : Violation}
    (hcheck : root.check = .ok ()) (hparts : ∀ g, .visit g ∈ parts → Regular root g)
    (h : Completes config root parts violations frames) (hv : v ∈ violations) :
    ∃ p ∈ parts, p.Owns v := by
  induction h with
  | nil => cases hv
  | @report w _ _ _ _ ih =>
    rcases List.mem_cons.mp hv with rfl | hv
    · exact ⟨_, List.mem_cons_self, rfl⟩
    · obtain ⟨p, hp, howns⟩ := ih (fun g hg => hparts g (List.mem_cons_of_mem _ hg)) hv
      exact ⟨p, List.mem_cons_of_mem _ hp, howns⟩
  | @visit f _ _ _ _ _ _ _ ihf ih =>
    rcases List.mem_append.mp hv with hv | hv
    · have hf := hparts f List.mem_cons_self
      obtain ⟨p, hp, howns⟩ := ihf (fun g hg => hf.of_enters (hf.enters_of_goes hcheck hg)) hv
      exact ⟨_, List.mem_cons_self, hf.prefix_of_owns hcheck hp howns⟩
    · obtain ⟨p, hp, howns⟩ := ih (fun g hg => hparts g (List.mem_cons_of_mem _ hg)) hv
      exact ⟨p, List.mem_cons_of_mem _ hp, howns⟩

/-- The start of a run of its own, as a choice of a tag. -/
def Frame.chosen (root : Schema) (document : Value) (tag : String) : Frame :=
  { start root document with tag := some tag }

section tagged
variable {members : List (String × Value)} {tag : String}

theorem Frame.exists_concerns_of_mem_declaredParts {f : Frame} {p : Part}
    (hp : p ∈ f.declaredParts members) :
    ∃ name ∈ keys f.schema.properties ++ keys f.schema.optionalProperties, f.Concerns name p := by
  rcases List.mem_append.mp hp with hp | hp
  · obtain ⟨name, hname, hconcerns⟩ := exists_of_mem_forall₂ (requiredParts_concern members _) hp
    exact ⟨name, List.mem_append_left _ hname, hconcerns⟩
  · obtain ⟨names, hsublist, hconcern⟩ :=
      optionalParts_concern f members (entries f.schema.optionalProperties)
    obtain ⟨name, hname, hconcerns⟩ := exists_of_mem_forall₂ hconcern hp
    exact ⟨name, List.mem_append_right _ (hsublist.subset hname), hconcerns⟩

/-- What is declared is never found undeclared. -/
theorem ne_of_mem_declared (hcheck : root.check = .ok ()) {f : Frame}
    (hf : Regular root f) (hform : f.schema.form = .properties) (hv : f.value = .object members)
    (htag : tag ∉ keys f.schema.properties ++ keys f.schema.optionalProperties)
    {frames : List Frame}
    (h : Completes config root (f.declaredParts members) violations frames) :
    ∀ v ∈ violations, v ≠ f.violation [tag] [] := by
  rintro v hv' rfl
  have hregular : ∀ g, .visit g ∈ f.declaredParts members → Regular root g := by
    intro g hg
    have hgoes : Goes config root f g := by
      rw [Goes, parts_eq_declaredParts (hf.correct hcheck).sole hf.json hform hv]
      exact List.mem_append_left _ hg
    exact hf.of_enters (hf.enters_of_goes hcheck hgoes)
  obtain ⟨p, hp, howns⟩ := h.exists_owns hcheck hregular hv'
  obtain ⟨name, hname, hconcerns⟩ := exists_concerns_of_mem_declaredParts hp
  exact hconcerns.apart .undeclared (fun heq : name = tag => htag (heq ▸ hname)) _ howns rfl

theorem undeclared_chosen (config : Config) (declared : List String) :
    (if config.strict then
      ((chosen root document tag).undeclaredKeys declared members).map fun key =>
        (chosen root document tag).violation [key] []
      else []) =
      (if config.strict then
        ((start root document).undeclaredKeys declared members).map fun key =>
          (start root document).violation [key] []
        else []).filter (· ≠ (start root document).violation [tag] []) := by
  split_ifs
  · rw [List.filter_map, undeclaredKeys, undeclaredKeys, List.filter_filter]
    refine congrArg₂ List.map rfl (List.filter_congr fun key _ => ?_)
    simp [chosen, start, violation]
  · rfl

/-- A tag that chose the schema is not reported as undeclared, and this is all that it changes. -/
theorem completes_chosen_iff (hcheck : root.check = .ok ()) (hform : root.form = .properties)
    (hjson : (Value.object members).isJson)
    (htag : tag ∉ keys root.properties ++ keys root.optionalProperties) :
    (∃ frames, Completes config root [.visit (chosen root (.object members) tag)] violations
      frames) ↔
      ∃ found, (∃ frames, Completes config root [.visit (start root (.object members))] found
        frames) ∧ violations = found.filter (· ≠ ⟨[tag], []⟩) := by
  have hstart := regular_start root hjson
  have hsole := (hstart.correct hcheck).sole
  have hchosen : (chosen root (.object members) tag).parts config root = _ :=
    parts_eq_declaredParts hsole hjson hform rfl
  have hown : (start root (.object members)).parts config root = _ :=
    parts_eq_declaredParts hsole hjson hform rfl
  -- Only the undeclared members lose a violation: those that are declared never record that one.
  have hkept : ∀ found frames,
      Completes config root ((start root (.object members)).declaredParts members) found frames →
        found.filter (· ≠ (start root (.object members)).violation [tag] []) = found :=
    fun found frames h => List.filter_eq_self.mpr fun v hv =>
      decide_eq_true (ne_of_mem_declared hcheck hstart hform rfl htag h v hv)
  simp only [Completes.exists_visit_iff, hchosen, hown, Completes.exists_append_iff,
    Completes.exists_reports_iff, undeclared_chosen]
  constructor
  · rintro ⟨found, _, ⟨frames, hfound⟩, rfl, rfl⟩
    refine ⟨_, ⟨found, _, ⟨frames, hfound⟩, rfl, rfl⟩, ?_⟩
    rw [List.filter_append]
    exact congrArg (· ++ _) (hkept found frames hfound).symm
  · rintro ⟨_, ⟨found, _, ⟨frames, hfound⟩, rfl, rfl⟩, rfl⟩
    refine ⟨found, _, ⟨frames, hfound⟩, rfl, ?_⟩
    rw [List.filter_append]
    exact congrArg (· ++ _) (hkept found frames hfound)

/-- An object of a tagged union is judged by the schema that its tag chooses. The tag is not found
undeclared, as it is when that schema judges the object by itself. -/
theorem returns_tagged_iff {text : String} {mapping : List (String × Schema)} {target : Schema}
    (hcheck : root.check = .ok ()) (hfree : config.maxErrors = 0)
    (hd : root.discriminator = some ⟨tag, some mapping⟩)
    (htag : members.lookup tag = some (.string text)) (htarget : mapping.lookup text = some target)
    (hjson : (Value.object members).isJson) :
    EndsWith config root (.object members) (.ok ⟨violations⟩) ↔
      ∃ found, Returns config root.definitions target (.object members) found ∧
        violations = (found.filter (· ≠ ⟨[tag], []⟩)).map
          (Violation.moved [] ["discriminator", "mapping", text]) := by
  have hc := (regular_start root hjson).correct hcheck
  have hchild : root.CheckedNode target := .child .root (.tagged hd (mem_of_lookup htarget))
  have hcheck' := hchild.check_within hcheck
  obtain ⟨hpopulates, -, hrequired, hoptional⟩ :=
    hc.tagged tag mapping hd text target (mem_of_lookup htarget)
  have hform : (target.within root.definitions).form = .properties :=
    ((regular_start _ hjson).correct hcheck').sole.form_eq hpopulates
  have hparts : (start root (.object members)).parts config root =
      [.visit ((start root (.object members)).choose tag text target)] := by
    rw [parts_eq_of_readOff hc.sole hjson (r := .tagged tag mapping) hd]
    simp only [unionParts, start, tagParts_of_text htag, htarget]
  have hplaced : Placement (target.within root.definitions) root []
      ["discriminator", "mapping", text] 0
      (chosen (target.within root.definitions) (.object members) tag)
      ((start root (.object members)).choose tag text target) :=
    ⟨⟨rfl, rfl, rfl, rfl⟩, ⟨.root, hjson⟩, hchild, hjson⟩
  rw [returns_iff_parts hcheck hfree hjson, hparts, hplaced.completes_iff hcheck' hcheck rfl]
  simp only [completes_chosen_iff hcheck' hform hjson
    (List.mem_append.not.mpr (not_or.mpr ⟨hrequired, hoptional⟩)),
    returns_iff_completes hcheck hfree hchild hjson]
  constructor
  · rintro ⟨_, ⟨found, hfound, rfl⟩, rfl⟩
    exact ⟨found, hfound, rfl⟩
  · rintro ⟨found, hfound, rfl⟩
    exact ⟨_, ⟨found, hfound, rfl⟩, rfl⟩

end tagged

/-! ## References -/

/-- A run behind a reference returns what the definition returns by itself. -/
theorem returns_of_ref {name : String} {target : Schema} (hcheck : root.check = .ok ())
    (hfree : config.maxErrors = 0) (href : root.ref = some name)
    (htarget : (entries root.definitions).lookup name = some target) (hjson : document.isJson)
    (h : EndsWith config root document (.ok ⟨violations⟩)) :
    ∃ found, Returns config root.definitions target document found ∧
      violations = found.map (Violation.moved [] ["definitions", name]) := by
  have hsole := ((regular_start root hjson).correct hcheck).sole
  have hnode : root.CheckedNode target := .definition (mem_of_lookup htarget)
  obtain ⟨frames, h⟩ := (returns_iff_parts hcheck hfree hjson).mp h
  rw [parts_eq_of_readOff hsole hjson (r := .definition name) href] at h
  simp only [refParts_eq htarget] at h
  split_ifs at h with hdepth
  · exact absurd List.mem_cons_self (h.halt_not_mem .tooDeep)
  -- The reference was followed, so the limit is not one, and the walk behind it starts within it.
  have hlimit : config.maxDepth ≠ 1 := hdepth
  have hdeeper : Deeper config (target.within root.definitions) root [] ["definitions", name]
      (start (target.within root.definitions) document)
      ((start root document).follow name target) := by
    refine ⟨⟨⟨rfl, rfl, rfl, rfl⟩, regular_start _ hjson, hnode, hjson⟩, Nat.one_pos, ?_⟩
    show config.maxDepth = 0 ∨ 2 ≤ config.maxDepth
    omega
  obtain ⟨found, frames, hfound, hmoved⟩ :=
    hdeeper.completes (hnode.check_within hcheck) hcheck rfl h
  exact ⟨found, (returns_iff_completes hcheck hfree hnode hjson).mpr ⟨frames, hfound⟩, hmoved⟩

/-! ## All forms -/

/-- What a run under a schema returns comes from runs of their own under the schemas below it, all
of them with the same definitions. -/
structure Composes (config : Config) (definitions : Option (List (String × Schema))) (s : Schema) :
    Prop where
  /-- The items of an array, in their order. -/
  elements : ∀ item items violations, s.elements = some item → (Value.array items).isJson →
    (Returns config definitions s (.array items) violations ↔
      ∃ pieces, List.Forall₂
        (fun x piece => Piece config definitions [toString x.2] ["elements"] item x.1 piece)
        items.zipIdx pieces ∧ violations = pieces.flatten)
  /-- The members of an object, in their order. -/
  values : ∀ member members violations, s.values = some member → (Value.object members).isJson →
    (Returns config definitions s (.object members) violations ↔
      ∃ pieces, List.Forall₂
        (fun x piece => Piece config definitions [x.1] ["values"] member x.2 piece)
        members pieces ∧ violations = pieces.flatten)
  /-- The required and the optional members, in the order of the schema, and then the undeclared
  ones, in the order of the object. -/
  properties : ∀ members violations, s.form = .properties → (Value.object members).isJson →
    (Returns config definitions s (.object members) violations ↔
      ∃ required optional,
        List.Forall₂ (MemberPiece config definitions members "properties"
          fun name => [⟨[], ["properties", name]⟩]) (entries s.properties) required ∧
        List.Forall₂ (MemberPiece config definitions members "optionalProperties" fun _ => [])
          (entries s.optionalProperties) optional ∧
        violations = required.flatten ++ (optional.flatten ++
          if config.strict then s.undeclaredIn members else []))
  /-- The object itself under the schema that its tag chooses, where the tag is not undeclared. -/
  tagged : ∀ tag text mapping target members violations,
    s.discriminator = some ⟨tag, some mapping⟩ → members.lookup tag = some (.string text) →
    mapping.lookup text = some target → (Value.object members).isJson →
    (Returns config definitions s (.object members) violations ↔
      ∃ found, Returns config definitions target (.object members) found ∧
        violations = (found.filter (· ≠ ⟨[tag], []⟩)).map
          (Violation.moved [] ["discriminator", "mapping", text]))
  /-- The value itself under a definition, which returns where the reference does. -/
  ref : ∀ name target x violations, s.ref = some name →
    (entries definitions).lookup name = some target → x.isJson →
    Returns config definitions s x violations →
      ∃ found, Returns config definitions target x found ∧
        violations = found.map (Violation.moved [] ["definitions", name])

/-- **Validation is compositional**: what a run returns is put together from what the runs for the
schemas below return by themselves, each moved to its place. -/
theorem validation_composes (config : Config) (definitions : Option (List (String × Schema)))
    (s : Schema) (hcheck : (s.within definitions).check = .ok ()) (hfree : config.maxErrors = 0) :
    Composes config definitions s where
  elements _ _ _ hs hjson := returns_elements_iff hcheck hfree hs hjson
  values _ _ _ hs hjson := returns_values_iff hcheck hfree hs hjson
  properties _ _ hform hjson := returns_properties_iff hcheck hfree hform hjson
  tagged _ _ _ _ _ _ hd htag htarget hjson :=
    returns_tagged_iff hcheck hfree hd htag htarget hjson
  ref _ _ _ _ href htarget hjson h := returns_of_ref hcheck hfree href htarget hjson h

/-- The second shape of a list is judged behind a reference, and found at its own place. -/
theorem shapes_compose :
    ∃ pieces, List.Forall₂
      (fun x piece => Piece ⟨0, 0, true⟩ Schema.shapes.definitions [toString x.2] ["elements"]
        { ref := some "shape" } x.1 piece)
      [(.object [("kind", .string "circle"), ("radius", .int 3)], 0), (.null, 1)] pieces ∧
      [⟨["1"], ["definitions", "shape", "discriminator"]⟩] = pieces.flatten := by
  let document : Value := .array [.object [("kind", .string "circle"), ("radius", .int 3)], .null]
  have htrace : trace 9 ⟨0, 0, true⟩ Schema.shapes document =
      ⟨[⟨["1"], ["definitions", "shape", "discriminator"]⟩], none⟩ := by decide
  have hhalt : (trace 9 ⟨0, 0, true⟩ Schema.shapes document).halt ≠ some .stackExhausted := by
    simp [htrace]
  have hends := endsWith_of_halt_ne hhalt
  rw [htrace] at hends
  exact ((validation_composes ⟨0, 0, true⟩ Schema.shapes.definitions Schema.shapes rfl rfl).elements
    _ _ _ rfl rfl).mp hends

end SchemaForms
