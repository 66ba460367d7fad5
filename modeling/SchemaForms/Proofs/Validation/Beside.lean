import SchemaForms.Proofs.Schema.Aligned
import SchemaForms.Proofs.Validation.Comparison

/-!
# Frames side by side

Frames that judge the same value by rules alike, at related locations, do the same step: their parts
match one by one and visit frames that stand side by side again (`Beside.parts`). The relation
between locations only has to survive what a step does to them (`LocationsKept`).
-/

namespace SchemaForms

/-! ## Frames side by side -/

/-- A relation between locations, and one between what is recorded there, that a step keeps. -/
structure LocationsKept (L : Location → Location → Prop)
    (Q : List Violation → List Violation → Prop) : Prop where
  under : ∀ {l m : Location} {more : List String}, L l m → more.head? ≠ some "definitions" →
    L (l.under more) (m.under more)
  enter : ∀ {l m : Location} {more : List String} (token : String), L l m →
    more.head? ≠ some "definitions" → L (l.enter token more) (m.enter token more)
  follow : ∀ {l m : Location} (name : String), L l m → L (l.follow name) (m.follow name)
  violation : ∀ {l m : Location}, L l m → Q [l.violation] [m.violation]

namespace Frame

/-- Two frames that judge the same value by related schemas, at related locations. -/
structure Beside (L : Location → Location → Prop) (S : Schema → Schema → Prop) (f g : Frame) :
    Prop where
  location : L f.location g.location
  tag : f.tag = g.tag
  schema : S f.schema g.schema
  value : f.value = g.value

/-- Parts that do the same, and visit frames side by side. -/
abbrev PartsAlike (L : Location → Location → Prop) (C : Schema → Schema → Prop)
    (Q : List Violation → List Violation → Prop) : List Part → List Part → Prop :=
  List.Forall₂ (Part.Matches (Beside L C) Q)

namespace Beside

variable {L : Location → Location → Prop} {S C : Schema → Schema → Prop}
  {Q : List Violation → List Violation → Prop} {config : Config} {root root' : Schema}
  {f g : Frame} {s t : Schema} {x : Value}
  {required required' optional optional' : List (String × Schema)}

theorem enter (hL : LocationsKept L Q) (h : Beside L S f g) (token : String) {more : List String}
    (hmore : more.head? ≠ some "definitions") (hst : C s t) :
    Beside L C (f.enter token more s x) (g.enter token more t x) :=
  ⟨hL.enter token h.location hmore, rfl, hst, rfl⟩

theorem follow (hL : LocationsKept L Q) (h : Beside L S f g) (name : String) (hst : C s t) :
    Beside L C (f.follow name s) (g.follow name t) :=
  ⟨hL.follow name h.location, rfl, hst, h.value⟩

theorem choose (hL : LocationsKept L Q) (h : Beside L S f g) (tag text : String) (hst : C s t) :
    Beside L C (f.choose tag text s) (g.choose tag text t) :=
  ⟨hL.under h.location (by simp), rfl, hst, h.value⟩

theorem blame (hL : LocationsKept L Q) (h : Beside L S f g) {more : List String}
    (hmore : more.head? ≠ some "definitions") :
    Part.Matches (Beside L C) Q (f.blame more) (g.blame more) :=
  .report (hL.violation (hL.under h.location hmore))

theorem blameMember (hL : LocationsKept L Q) (h : Beside L S f g) (key : String)
    {more : List String} (hmore : more.head? ≠ some "definitions") :
    Part.Matches (Beside L C) Q (f.blameMember key more) (g.blameMember key more) :=
  .report (hL.violation (hL.enter key h.location hmore))

/-! ## The parts of each rule -/

theorem refParts (hL : LocationsKept L Q) (h : Beside L S f g)
    (hdefinitions : Option.Rel (EntriesAlike C) root.definitions root'.definitions)
    (hdepth : config.maxDepth = f.location.depth ↔ config.maxDepth = g.location.depth)
    (name : String) :
    PartsAlike L C Q (f.refParts config root name) (g.refParts config root' name) := by
  rw [Frame.refParts, Frame.refParts]
  simp only [hdepth]
  split_ifs
  · exact .cons (.halt _) .nil
  · rcases rel_cases hdefinitions with ⟨hd, hd'⟩ | ⟨definitions, definitions', hd, hd', hentries⟩
    · simp only [hd, hd']
      exact .cons (.halt _) .nil
    · simp only [hd, hd']
      rcases rel_cases (hentries.lookup name) with ⟨hs, ht⟩ | ⟨s, t, hs, ht, hst⟩
      · simp only [hs, ht]
        exact .cons (.halt _) .nil
      · simp only [hs, ht]
        exact .cons (.visit (h.follow hL name hst)) .nil

theorem scalarParts (hL : LocationsKept L Q) (h : Beside L S f g) (typeName : String) :
    PartsAlike L C Q (f.scalarParts typeName) (g.scalarParts typeName) := by
  rw [Frame.scalarParts, Frame.scalarParts, h.value]
  cases ScalarType.ofName? typeName with
  | none => exact .cons (.halt _) .nil
  | some t =>
    simp only
    split_ifs
    · exact .nil
    · exact .cons (h.blame hL (by simp)) .nil

theorem enumParts (hL : LocationsKept L Q) (h : Beside L S f g) (texts : List String) :
    PartsAlike L C Q (f.enumParts texts) (g.enumParts texts) := by
  unfold Frame.enumParts
  rw [h.value]
  cases g.value with
  | string text =>
    simp only
    split_ifs
    · exact .nil
    · exact .cons (h.blame hL (by simp)) .nil
  | _ => exact .cons (h.blame hL (by simp)) .nil

theorem elementParts (hL : LocationsKept L Q) (h : Beside L S f g) (hst : C s t) :
    PartsAlike L C Q (f.elementParts s) (g.elementParts t) := by
  unfold Frame.elementParts
  rw [h.value]
  cases g.value with
  | array items =>
    refine List.forall₂_iff_get.mpr ⟨by simp, fun i hi hi' => ?_⟩
    simp only [List.get_eq_getElem, List.getElem_mapIdx]
    exact .visit (h.enter hL _ (by simp) hst)
  | _ => exact .cons (h.blame hL (by simp)) .nil

theorem memberParts (hL : LocationsKept L Q) (h : Beside L S f g) (config : Config)
    (hrequired : EntriesAlike C required required') (hoptional : EntriesAlike C optional optional')
    (members : List (String × Value)) :
    PartsAlike L C Q (f.memberParts config required optional members)
      (g.memberParts config required' optional' members) := by
  have hkeys : (required ++ optional).map (·.1) = (required' ++ optional').map (·.1) := by
    rw [List.map_append, List.map_append, hrequired.keys_eq, hoptional.keys_eq]
  refine List.rel_append ?_ (List.rel_append ?_ ?_)
  · refine List.rel_map ?_ hrequired
    rintro ⟨name, s⟩ ⟨_, t⟩ ⟨rfl, hst⟩
    simp only [requiredPart]
    cases members.lookup name with
    | none => exact h.blame hL (by simp)
    | some x => exact .visit (h.enter hL _ (by simp) hst)
  · refine List.rel_filterMap ?_ hoptional
    rintro ⟨name, s⟩ ⟨_, t⟩ ⟨rfl, hst⟩
    simp only [optionalPart]
    cases members.lookup name with
    | none => exact .none
    | some x => exact .some (.visit (h.enter hL _ (by simp) hst))
  · rw [undeclaredParts, undeclaredParts, h.tag, hkeys]
    split_ifs
    · rw [List.forall₂_map_left_iff, List.forall₂_map_right_iff, List.forall₂_same]
      exact fun _ _ => h.blameMember hL _ (by simp)
    · exact .nil

theorem propertyParts (hL : LocationsKept L Q) (h : Beside L S f g) (config : Config)
    {required required' optional optional' : Option (List (String × Schema))}
    (hrequired : Option.Rel (EntriesAlike C) required required')
    (hoptional : Option.Rel (EntriesAlike C) optional optional') :
    PartsAlike L C Q (f.propertyParts config required optional)
      (g.propertyParts config required' optional') := by
  unfold Frame.propertyParts
  rw [h.value, isSome_eq_of_rel hrequired]
  cases g.value with
  | object members =>
    exact h.memberParts hL config (entriesAlike_of_rel hrequired) (entriesAlike_of_rel hoptional)
      members
  | _ =>
    refine .cons (h.blame hL ?_) .nil
    split_ifs <;> simp

theorem valueParts (hL : LocationsKept L Q) (h : Beside L S f g) (hst : C s t) :
    PartsAlike L C Q (f.valueParts s) (g.valueParts t) := by
  unfold Frame.valueParts
  rw [h.value]
  cases g.value with
  | object members =>
    refine List.rel_map ?_ (List.forall₂_same.mpr fun _ _ => rfl)
    rintro ⟨key, x⟩ _ rfl
    exact .visit (h.enter hL _ (by simp) hst)
  | _ => exact .cons (h.blame hL (by simp)) .nil

theorem tagParts (hL : LocationsKept L Q) (h : Beside L S f g) (tag : String)
    {mapping mapping' : List (String × Schema)} (hmapping : EntriesAlike C mapping mapping')
    (members : List (String × Value)) :
    PartsAlike L C Q (f.tagParts tag mapping members) (g.tagParts tag mapping' members) := by
  unfold Frame.tagParts
  cases members.lookup tag with
  | none => exact .cons (h.blame hL (by simp)) .nil
  | some x =>
    simp only
    cases x.kindOf with
    | error leaf => exact .cons (.halt _) .nil
    | ok kind =>
      cases x with
      | string text =>
        rcases rel_cases (hmapping.lookup text) with ⟨hs, ht⟩ | ⟨s, t, hs, ht, hst⟩
        · simp only [hs, ht]
          exact .cons (h.blameMember hL _ (by simp)) .nil
        · simp only [hs, ht]
          exact .cons (.visit (h.choose hL tag text hst)) .nil
      | _ => exact .cons (h.blameMember hL _ (by simp)) .nil

theorem unionParts (hL : LocationsKept L Q) (h : Beside L S f g) (tag : String)
    {mapping mapping' : List (String × Schema)} (hmapping : EntriesAlike C mapping mapping') :
    PartsAlike L C Q (f.unionParts tag mapping) (g.unionParts tag mapping') := by
  unfold Frame.unionParts
  rw [h.value]
  cases g.value with
  | object members => exact h.tagParts hL tag hmapping members
  | _ => exact .cons (h.blame hL (by simp)) .nil

/-- **Frames side by side do the same step** if their rules are alike and, where these are
references, the two walks follow them alike. -/
theorem parts (hL : LocationsKept L Q) (h : Beside L S f g)
    (hrule : f.schema.rule.Alike C g.schema.rule) (hjson : f.value.isJson)
    (hfollow : ∀ name, g.schema.rule = .definition name →
      PartsAlike L C Q (f.refParts config root name) (g.refParts config root' name)) :
    PartsAlike L C Q (f.parts config root) (g.parts config root') := by
  have hjson' : g.value.isJson := h.value ▸ hjson
  rw [Frame.parts, Frame.parts, resolved_eq hjson, resolved_eq hjson', partsHere, partsHere]
  generalize f.schema.rule = r at hrule
  generalize hr' : g.schema.rule = r' at hrule
  cases hrule with
  | anything => exact .nil
  | definition name => exact hfollow name hr'
  | scalar typeName =>
    simp only [onJson_eq hjson, onJson_eq hjson']
    exact h.scalarParts hL typeName
  | oneOf texts =>
    simp only [onJson_eq hjson, onJson_eq hjson']
    exact h.enumParts hL texts
  | elements hst =>
    simp only [onJson_eq hjson, onJson_eq hjson']
    exact h.elementParts hL hst
  | properties hrequired hoptional =>
    simp only [onJson_eq hjson, onJson_eq hjson']
    exact h.propertyParts hL config hrequired hoptional
  | values hst =>
    simp only [onJson_eq hjson, onJson_eq hjson']
    exact h.valueParts hL hst
  | tagged tag hmapping =>
    simp only [onJson_eq hjson, onJson_eq hjson']
    exact h.unionParts hL tag hmapping

end Beside

end Frame

end SchemaForms
