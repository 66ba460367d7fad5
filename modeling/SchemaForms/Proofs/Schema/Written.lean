import SchemaForms.Proofs.Schema.Correct
import SchemaForms.Proofs.Schema.NormalForm
import SchemaForms.Proofs.Schema.Path
import SchemaForms.Proofs.Schema.Shape
import SchemaForms.Proofs.Value.Height

/-!
# Schemas written out

A schema is decoded keyword by keyword (`ofMembers_eq`) and written out keyword by keyword
(`exists_written`). What is decoded has no empty type (`tidy_ofValue`); such a schema is written as a
document that follows the grammar, and decoded from it again (`decode_toValue_of_tidy`).
-/

namespace SchemaForms.Schema

variable {s t : Schema} {key name : String} {v : Value}

/-! ## Keyword by keyword -/

/-- The texts of an array. -/
def textsOfValue : Value → Option (List String)
  | .array items => some (Value.strings items)
  | _ => none

/-- The tagged union of a keyword that holds one. -/
def unionOfValue : Value → Option (Discriminator Schema)
  | .object parts => some (discriminatorOfMembers parts)
  | _ => none

/-- Every keyword is decoded from what its key looks up. -/
theorem ofMembers_eq (members : List (String × Value)) : ofMembers members =
    { definitions := (members.lookup "definitions").bind mapOfValue
      ref := (members.lookup "ref").bind Value.toString?
      type := ((members.lookup "type").bind Value.toString?).filter (· ≠ "")
      enum := (members.lookup "enum").bind textsOfValue
      elements := (members.lookup "elements").bind nodeOfValue
      properties := (members.lookup "properties").bind mapOfValue
      optionalProperties := (members.lookup "optionalProperties").bind mapOfValue
      values := (members.lookup "values").bind nodeOfValue
      discriminator := (members.lookup "discriminator").bind unionOfValue } := by
  induction members with
  | nil => rfl
  | cons entry rest ih =>
    obtain ⟨key, v⟩ := entry
    unfold ofMembers
    split
    case h_4 => cases v <;> simp [List.lookup_cons, textsOfValue, ih]
    case h_9 => cases v <;> simp [List.lookup_cons, unionOfValue, ih]
    case h_10 hdefinitions href htype henum helements hproperties hoptional hvalues hunion =>
      have hkey : key ∉ keywords := by
        simp only [keywords, List.mem_cons, List.not_mem_nil, or_false, not_or]
        exact ⟨hdefinitions, href, htype, henum, helements, hproperties, hoptional, hvalues, hunion⟩
      have hother : ∀ name ∈ keywords,
          List.lookup name ((key, v) :: rest) = List.lookup name rest :=
        fun name hname => lookup_cons_of_ne fun heq => hkey (heq ▸ hname)
      simp only [keywords, List.forall_mem_cons] at hother
      simp only [hother]
      exact ih
    all_goals simp only [List.lookup_cons, String.reduceBEq, Option.bind_some, ih]

/-- The tag and the mapping are decoded from what their keys look up. -/
theorem discriminatorOfMembers_eq (parts : List (String × Value)) : discriminatorOfMembers parts =
    { tag := ((parts.lookup "tag").bind Value.toString?).getD ""
      mapping := (parts.lookup "mapping").bind mapOfValue } := by
  induction parts with
  | nil => rfl
  | cons entry rest ih =>
    obtain ⟨key, v⟩ := entry
    unfold discriminatorOfMembers
    split
    case h_3 htag hmapping =>
      rw [lookup_cons_of_ne (Ne.symm htag), lookup_cons_of_ne (Ne.symm hmapping), ih]
    all_goals simp only [List.lookup_cons, String.reduceBEq, Option.bind_some, ih]

/-- The document of a map. -/
def mapToValue (map : List (String × Schema)) : Value := .object (mapToMembers map)

/-- The document of a tagged union. -/
def unionToValue (d : Discriminator Schema) : Value :=
  .object (("tag", .string d.tag) :: member? "mapping" (d.mapping.map mapToValue))

/-- What is written under a keyword. -/
def written (s : Schema) : String → Option Value
  | "definitions" => s.definitions.map mapToValue
  | "ref" => s.ref.map .string
  | "type" => (s.type.filter (· ≠ "")).map .string
  | "enum" => s.enum.map fun texts => .array (texts.map .string)
  | "elements" => s.elements.map toValue
  | "properties" => s.properties.map mapToValue
  | "optionalProperties" => s.optionalProperties.map mapToValue
  | "values" => s.values.map toValue
  | "discriminator" => s.discriminator.map unionToValue
  | _ => none

theorem lookup_member?_self (name : String) (value? : Option Value) :
    (member? name value?).lookup name = value? := by
  cases value? with
  | none => rfl
  | some v => exact List.lookup_cons_self

theorem lookup_member?_of_ne {value? : Option Value} (h : key ≠ name) :
    (member? name value?).lookup key = none := by
  cases value? with
  | none => rfl
  | some v => exact lookup_cons_of_ne h

theorem keys_flatMap_member?_sublist (value? : String → Option Value) (names : List String) :
    ((names.flatMap fun name => member? name (value? name)).map (·.1)).Sublist names := by
  induction names with
  | nil => exact .refl _
  | cons name rest ih =>
    rw [List.flatMap_cons, List.map_append]
    cases value? name with
    | none => exact ih.cons name
    | some v => exact ih.cons_cons name

theorem lookup_flatMap_member? (value? : String → Option Value) {names : List String}
    (hnodup : names.Nodup) (key : String) :
    (names.flatMap fun name => member? name (value? name)).lookup key =
      if key ∈ names then value? key else none := by
  induction names with
  | nil => rfl
  | cons name rest ih =>
    obtain ⟨hname, hrest⟩ := List.nodup_cons.mp hnodup
    rw [List.flatMap_cons, List.lookup_append, ih hrest]
    by_cases hkey : key = name
    · subst hkey
      rw [lookup_member?_self, if_neg hname, if_pos List.mem_cons_self, Option.or_none]
    · rw [lookup_member?_of_ne hkey, Option.none_or]
      simp only [List.mem_cons, hkey, false_or]

theorem written_eq_none (h : key ∉ keywords) : s.written key = none := by
  unfold written
  split <;> first | rfl | exact absurd (by decide) h

/-- A node is written as an object with every keyword once. -/
theorem exists_written (s : Schema) :
    ∃ members, s.toValue = .object members ∧ (members.map (·.1)).Nodup ∧
      ∀ key, members.lookup key = s.written key := by
  have hkeywords : keywords.Nodup := by decide
  refine ⟨keywords.flatMap fun name => member? name (s.written name), ?_, ?_, fun key => ?_⟩
  · rw [toValue_eq]
    simp only [keywords, List.flatMap_cons, List.flatMap_nil, List.append_assoc, List.append_nil]
    rfl
  · exact hkeywords.sublist (keys_flatMap_member?_sublist _ _)
  · rw [lookup_flatMap_member? _ hkeywords]
    split_ifs with hkey
    · rfl
    · exact (written_eq_none hkey).symm

/-! ## What is written is decoded -/

/-- No type is empty, at any depth. -/
inductive Tidy : Schema → Prop
  | node {s : Schema} (type : s.type ≠ some "")
      (definitions : ∀ entry ∈ entries s.definitions, Tidy entry.2)
      (children : ∀ t, Child s t → Tidy t) : Tidy s

theorem mapToMembers_eq_map (map : List (String × Schema)) :
    mapToMembers map = map.map fun entry => (entry.1, entry.2.toValue) := by
  induction map with
  | nil => rw [mapToMembers, List.map_nil]
  | cons entry rest ih => rw [mapToMembers, ih, List.map_cons]

theorem mapOfMembers_eq_map (members : List (String × Value)) :
    mapOfMembers members = members.map fun entry => (entry.1, ofValue entry.2) := by
  induction members with
  | nil => rw [mapOfMembers, List.map_nil]
  | cons entry rest ih => rw [mapOfMembers, ih, List.map_cons]

theorem bind_map_eq {α β : Type} {a : Option α} {f : α → β} {g : β → Option α}
    (h : ∀ x, a = some x → g (f x) = some x) : (a.map f).bind g = a := by
  cases a with
  | none => rfl
  | some x => exact h x rfl

theorem mapOfValue_mapToValue {map : List (String × Schema)}
    (h : ∀ entry ∈ map, ofValue entry.2.toValue = entry.2) :
    mapOfValue (mapToValue map) = some map := by
  rw [mapToValue, mapOfValue, mapToMembers_eq_map, mapOfMembers_eq_map, List.map_map]
  congr 1
  conv_rhs => rw [← List.map_id map]
  refine List.map_congr_left fun entry hentry => ?_
  show (entry.1, ofValue entry.2.toValue) = entry
  rw [h entry hentry]

theorem nodeOfValue_toValue (s : Schema) : nodeOfValue s.toValue = some (ofValue s.toValue) := by
  obtain ⟨members, hmembers, -, -⟩ := s.exists_written
  rw [hmembers, nodeOfValue, ofValue]

theorem textsOfValue_map (texts : List String) :
    textsOfValue (.array (texts.map .string)) = some texts := by
  rw [textsOfValue, Value.strings, List.filterMap_map]
  exact congrArg some List.filterMap_some

theorem unionOfValue_unionToValue {d : Discriminator Schema}
    (h : ∀ map, d.mapping = some map → mapOfValue (mapToValue map) = some map) :
    unionOfValue (unionToValue d) = some d := by
  obtain ⟨tag, mapping⟩ := d
  rw [unionToValue, unionOfValue, discriminatorOfMembers_eq]
  cases mapping with
  | none => rfl
  | some map =>
    simp only [Option.map_some, member?, Option.toList_some, List.lookup_cons, String.reduceBEq,
      Option.bind_some, h map rfl]
    rfl

/-- A schema without empty types is decoded from what is written of it. -/
theorem ofValue_toValue (h : Tidy s) : ofValue s.toValue = s := by
  induction h with
  | @node s htype _ _ ihdefinitions ihchildren =>
    have hmap : ∀ map, (∀ entry ∈ map, Child s entry.2) → mapOfValue (mapToValue map) = some map :=
      fun map hchild => mapOfValue_mapToValue fun entry hentry => ihchildren _ (hchild entry hentry)
    have hnode : ∀ t, Child s t → nodeOfValue t.toValue = some t := fun t ht => by
      rw [nodeOfValue_toValue, ihchildren t ht]
    have hdefinitions : (s.definitions.map mapToValue).bind mapOfValue = s.definitions := by
      refine bind_map_eq fun map hmap => mapOfValue_mapToValue fun entry hentry => ?_
      exact ihdefinitions entry (mem_entries.mpr ⟨map, hmap, hentry⟩)
    have href : (s.ref.map Value.string).bind Value.toString? = s.ref :=
      bind_map_eq fun _ _ => rfl
    have htype : (((s.type.filter (· ≠ "")).map Value.string).bind Value.toString?).filter
        (· ≠ "") = s.type := by
      have hfilter : s.type.filter (· ≠ "") = s.type := by
        cases hs : s.type with
        | none => rfl
        | some typeName =>
          have hne : typeName ≠ "" := fun heq => htype (heq ▸ hs)
          exact Option.filter_some_pos (by simp [hne])
      rw [hfilter, bind_map_eq (f := Value.string) fun _ _ => rfl, hfilter]
    have henum : (s.enum.map fun texts => Value.array (texts.map .string)).bind textsOfValue =
        s.enum := bind_map_eq fun texts _ => textsOfValue_map texts
    have helements : (s.elements.map toValue).bind nodeOfValue = s.elements :=
      bind_map_eq fun t ht => hnode t (.elements ht)
    have hproperties : (s.properties.map mapToValue).bind mapOfValue = s.properties :=
      bind_map_eq fun map hs => hmap map fun _ hentry => .required hs hentry
    have hoptional : (s.optionalProperties.map mapToValue).bind mapOfValue =
        s.optionalProperties :=
      bind_map_eq fun map hs => hmap map fun _ hentry => .optional hs hentry
    have hvalues : (s.values.map toValue).bind nodeOfValue = s.values :=
      bind_map_eq fun t ht => hnode t (.values ht)
    have hunion : (s.discriminator.map unionToValue).bind unionOfValue = s.discriminator := by
      refine bind_map_eq fun d hd => unionOfValue_unionToValue fun map hmapping => ?_
      have hmapped : s.discriminator = some ⟨d.tag, some map⟩ := by rw [hd, ← hmapping]
      exact hmap map fun entry hentry => .tagged hmapped hentry
    obtain ⟨members, hmembers, -, hlookup⟩ := s.exists_written
    rw [hmembers, ofValue, ofMembers_eq]
    simp only [hlookup, written, hdefinitions, href, htype, henum, helements, hproperties,
      hoptional, hvalues, hunion]
    cases s
    rfl

/-- What is written under a keyword follows the grammar, and all of it can be shown. -/
theorem keywordShape_written (h : s.written key = some v)
    (hdefinitions : ∀ entry ∈ entries s.definitions,
      WireShape entry.2.toValue ∧ entry.2.toValue.isShowable = true)
    (hchildren : ∀ t, Child s t → WireShape t.toValue ∧ t.toValue.isShowable = true) :
    KeywordShape key v ∧ v.isShowable = true := by
  have hmap : ∀ map, (∀ entry ∈ map, WireShape entry.2.toValue ∧ entry.2.toValue.isShowable = true) →
      MapShape (mapToValue map) ∧ (mapToValue map).isShowable = true := by
    intro map hentries
    rw [mapToValue, mapToMembers_eq_map, mapShape_object_iff, Value.isShowable_object_iff]
    constructor
    · exact List.forall_mem_map.mpr fun entry hentry => (hentries entry hentry).1
    · exact List.forall_mem_map.mpr fun entry hentry => (hentries entry hentry).2
  unfold written at h
  split at h
  case h_1 =>
    obtain ⟨map, hs, rfl⟩ := Option.map_eq_some_iff.mp h
    exact hmap map fun entry hentry => hdefinitions entry (mem_entries.mpr ⟨map, hs, hentry⟩)
  case h_2 =>
    obtain ⟨text, -, rfl⟩ := Option.map_eq_some_iff.mp h
    exact ⟨.text text, rfl⟩
  case h_3 =>
    obtain ⟨text, -, rfl⟩ := Option.map_eq_some_iff.mp h
    exact ⟨.text text, rfl⟩
  case h_4 =>
    obtain ⟨texts, -, rfl⟩ := Option.map_eq_some_iff.mp h
    refine ⟨.texts (List.forall_mem_map.mpr fun text _ => ⟨text, rfl⟩), ?_⟩
    exact Value.isShowable_array_iff.mpr (List.forall_mem_map.mpr fun _ _ => rfl)
  case h_5 =>
    obtain ⟨t, hs, rfl⟩ := Option.map_eq_some_iff.mp h
    exact ⟨.node (hchildren t (.elements hs)).1, (hchildren t (.elements hs)).2⟩
  case h_6 =>
    obtain ⟨map, hs, rfl⟩ := Option.map_eq_some_iff.mp h
    exact hmap map fun entry hentry => hchildren _ (.required hs hentry)
  case h_7 =>
    obtain ⟨map, hs, rfl⟩ := Option.map_eq_some_iff.mp h
    exact hmap map fun entry hentry => hchildren _ (.optional hs hentry)
  case h_8 =>
    obtain ⟨t, hs, rfl⟩ := Option.map_eq_some_iff.mp h
    exact ⟨.node (hchildren t (.values hs)).1, (hchildren t (.values hs)).2⟩
  case h_9 =>
    obtain ⟨⟨tag, mapping⟩, hs, rfl⟩ := Option.map_eq_some_iff.mp h
    rw [unionToValue]
    show UnionShape _ ∧ _
    rw [unionShape_cons_iff, Value.isShowable_object_iff, List.forall_mem_cons]
    cases mapping with
    | none =>
      refine ⟨⟨.text tag, unionShape_object_iff.mpr ?_⟩, rfl, ?_⟩
      · simp [member?]
      · simp [member?]
    | some map =>
      obtain ⟨hshape, hshowable⟩ := hmap map fun entry hentry => hchildren _ (.tagged hs hentry)
      refine ⟨⟨.text tag, unionShape_object_iff.mpr ?_⟩, rfl, ?_⟩
      · exact List.forall_mem_singleton.mpr hshape
      · simpa [member?] using hshowable
  case h_10 => cases h

/-- What is written follows the grammar, and all of it can be shown. -/
theorem wireShape_toValue (h : Tidy s) : WireShape s.toValue ∧ s.toValue.isShowable = true := by
  induction h with
  | @node s _ _ _ ihdefinitions ihchildren =>
    obtain ⟨members, hmembers, hnodup, hlookup⟩ := s.exists_written
    have hkeyword : ∀ entry ∈ members,
        KeywordShape entry.1 entry.2 ∧ entry.2.isShowable = true := by
      intro entry hentry
      refine keywordShape_written ?_ ihdefinitions ihchildren
      rw [← hlookup, lookup_eq_some_iff_mem hnodup]
      exact hentry
    rw [hmembers, wireShape_object_iff, Value.isShowable_object_iff]
    exact ⟨fun entry hentry => (hkeyword entry hentry).1,
      fun entry hentry => (hkeyword entry hentry).2⟩

/-- A schema without empty types is decoded again from what is written of it. -/
theorem decode_toValue_of_tidy (h : Tidy s) : decode s.toValue = .ok s := by
  obtain ⟨hshape, hshowable⟩ := wireShape_toValue h
  rw [decode_eq_ok hshape hshowable, ofValue_toValue h]

/-! ## What is decoded has no empty type -/

theorem exists_of_mem_lookup {members : List (String × Value)} {map : List (String × Schema)}
    {entry : String × Schema} (h : (members.lookup key).bind mapOfValue = some map)
    (hentry : entry ∈ map) :
    ∃ w : Value, w.height < (Value.object members).height ∧ entry.2 = ofValue w := by
  obtain ⟨v, hv, hmap⟩ := Option.bind_eq_some_iff.mp h
  have hlow : v.height < (Value.object members).height :=
    Value.height_lt_of_mem_members (mem_of_lookup hv)
  cases v with
  | object entries =>
    rw [mapOfValue, Option.some.injEq, mapOfMembers_eq_map] at hmap
    subst hmap
    obtain ⟨⟨name, w⟩, hw, rfl⟩ := List.mem_map.mp hentry
    exact ⟨w, (Value.height_lt_of_mem_members hw).trans hlow, rfl⟩
  | _ => simp [mapOfValue] at hmap

theorem exists_of_lookup {members : List (String × Value)}
    (h : (members.lookup key).bind nodeOfValue = some t) :
    ∃ w : Value, w.height < (Value.object members).height ∧ t = ofValue w := by
  obtain ⟨v, hv, hnode⟩ := Option.bind_eq_some_iff.mp h
  refine ⟨v, Value.height_lt_of_mem_members (mem_of_lookup hv), ?_⟩
  cases v with
  | object members =>
    rw [nodeOfValue, Option.some.injEq] at hnode
    rw [ofValue, hnode]
  | _ => simp [nodeOfValue] at hnode

/-- A schema right below a decoded one is decoded from a part of the document. -/
theorem exists_of_child_ofMembers {members : List (String × Value)}
    (h : Child (ofMembers members) t) :
    ∃ w : Value, w.height < (Value.object members).height ∧ t = ofValue w := by
  rw [ofMembers_eq] at h
  cases h with
  | elements h => exact exists_of_lookup h
  | required h ht => exact exists_of_mem_lookup h ht
  | optional h ht => exact exists_of_mem_lookup h ht
  | values h => exact exists_of_lookup h
  | tagged h ht =>
    obtain ⟨v, hv, hunion⟩ := Option.bind_eq_some_iff.mp h
    cases v with
    | object parts =>
      rw [unionOfValue, Option.some.injEq, discriminatorOfMembers_eq, Discriminator.mk.injEq]
        at hunion
      obtain ⟨w, hw, heq⟩ := exists_of_mem_lookup hunion.2 ht
      exact ⟨w, hw.trans (Value.height_lt_of_mem_members (mem_of_lookup hv)), heq⟩
    | _ => simp [unionOfValue] at hunion

/-- A schema that is decoded has no empty type. -/
theorem tidy_ofValue (v : Value) : Tidy (ofValue v) := by
  induction hn : v.height using Nat.strongRecOn generalizing v with
  | ind n ih =>
    subst hn
    cases v with
    | object members =>
      rw [ofValue]
      refine .node ?_ (fun entry hentry => ?_) fun t ht => ?_
      · rw [ofMembers_eq]
        intro htype
        simpa using (Option.filter_eq_some_iff.mp htype).2
      · rw [ofMembers_eq] at hentry
        obtain ⟨map, hmap, hmem⟩ := mem_entries.mp hentry
        obtain ⟨w, hw, heq⟩ := exists_of_mem_lookup hmap hmem
        exact heq ▸ ih _ hw w rfl
      · obtain ⟨w, hw, rfl⟩ := exists_of_child_ofMembers ht
        exact ih _ hw w rfl
    | _ =>
      refine .node (by simp [ofValue, empty]) (by simp [ofValue, empty, entries]) fun t ht => ?_
      rw [ofValue] at ht
      · cases ht <;> contradiction
      · simp

end SchemaForms.Schema
