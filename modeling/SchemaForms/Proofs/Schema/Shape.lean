import SchemaForms.Proofs.Json.Reader
import SchemaForms.Schema.Shape
import SchemaForms.Schema.Unguarded

/-!
# The grammar of schema documents

`WireShape` is the grammar of the documents that describe a schema: what may stand under each
keyword, at any depth. A document has no misfits exactly if it follows the grammar
(`nodeMisfits_eq_nil_iff`), so the documents that are decoded are those (`decode_iff_wireShape`),
and one that follows it can be decoded as it stands (`unguarded?_eq_some`).
-/

namespace SchemaForms

/-- A string, or null. -/
inductive TextShape : Value → Prop
  | null : TextShape .null
  | text (text : String) : TextShape (.string text)

/-- An array of strings, or null. -/
inductive TextsShape : Value → Prop
  | null : TextsShape .null
  | texts {items : List Value} (h : ∀ x ∈ items, ∃ text, x = .string text) :
      TextsShape (.array items)

mutual
/-- The value has the shape of a schema. Of keywords that are not named here nothing is asked. -/
inductive WireShape : Value → Prop
  | node {members : List (String × Value)}
      (definitions : ∀ v, ("definitions", v) ∈ members → MapShape v)
      (ref : ∀ v, ("ref", v) ∈ members → TextShape v)
      (type : ∀ v, ("type", v) ∈ members → TextShape v)
      (enum : ∀ v, ("enum", v) ∈ members → TextsShape v)
      (elements : ∀ v, ("elements", v) ∈ members → OptionalShape v)
      (properties : ∀ v, ("properties", v) ∈ members → MapShape v)
      (optionalProperties : ∀ v, ("optionalProperties", v) ∈ members → MapShape v)
      (values : ∀ v, ("values", v) ∈ members → OptionalShape v)
      (discriminator : ∀ v, ("discriminator", v) ∈ members → UnionShape v) :
      WireShape (.object members)

/-- The value has the shape of a schema, or is null. -/
inductive OptionalShape : Value → Prop
  | null : OptionalShape .null
  | node {v : Value} (h : WireShape v) : OptionalShape v

/-- An object of schemas, none of which may be null, or null in its place. -/
inductive MapShape : Value → Prop
  | null : MapShape .null
  | map {members : List (String × Value)} (h : ∀ name v, (name, v) ∈ members → WireShape v) :
      MapShape (.object members)

/-- An object with a tag and a mapping, either of which may be missing, or null in its place. -/
inductive UnionShape : Value → Prop
  | null : UnionShape .null
  | union {parts : List (String × Value)} (tag : ∀ v, ("tag", v) ∈ parts → TextShape v)
      (mapping : ∀ v, ("mapping", v) ∈ parts → MapShape v) : UnionShape (.object parts)
end

/-! ## The grammar member by member -/

section grammar
variable {key : String} {v : Value} {rest : List (String × Value)}

theorem textShape_iff : TextShape v ↔ v = .null ∨ ∃ text, v = .string text := by
  constructor
  · rintro (_ | text)
    · exact .inl rfl
    · exact .inr ⟨text, rfl⟩
  · rintro (rfl | ⟨text, rfl⟩)
    · exact .null
    · exact .text text

/-- What the grammar asks of the value of a keyword. -/
def KeywordShape (key : String) (v : Value) : Prop :=
  match key with
  | "definitions" | "properties" | "optionalProperties" => MapShape v
  | "ref" | "type" => TextShape v
  | "enum" => TextsShape v
  | "elements" | "values" => OptionalShape v
  | "discriminator" => UnionShape v
  | _ => True

/-- What the grammar asks of a part of a tagged union. -/
def PartShape (key : String) (v : Value) : Prop :=
  match key with
  | "tag" => TextShape v
  | "mapping" => MapShape v
  | _ => True

theorem wireShape_object_iff {members : List (String × Value)} :
    WireShape (.object members) ↔ ∀ entry ∈ members, KeywordShape entry.1 entry.2 := by
  constructor
  · rintro ⟨hdefinitions, href, htype, henum, helements, hproperties, hoptional, hvalues,
      hdiscriminator⟩ ⟨key, v⟩ hmem
    dsimp only
    unfold KeywordShape
    split
    · exact hdefinitions v hmem
    · exact hproperties v hmem
    · exact hoptional v hmem
    · exact href v hmem
    · exact htype v hmem
    · exact henum v hmem
    · exact helements v hmem
    · exact hvalues v hmem
    · exact hdiscriminator v hmem
    · trivial
  · intro h
    exact ⟨fun _ => h _, fun _ => h _, fun _ => h _, fun _ => h _, fun _ => h _, fun _ => h _,
      fun _ => h _, fun _ => h _, fun _ => h _⟩

theorem unionShape_object_iff {parts : List (String × Value)} :
    UnionShape (.object parts) ↔ ∀ entry ∈ parts, PartShape entry.1 entry.2 := by
  constructor
  · rintro (_ | ⟨htag, hmapping⟩) ⟨key, v⟩ hmem
    dsimp only
    unfold PartShape
    split
    · exact htag v hmem
    · exact hmapping v hmem
    · trivial
  · exact fun h => .union (fun _ => h _) fun _ => h _

theorem wireShape_cons_iff :
    WireShape (.object ((key, v) :: rest)) ↔ KeywordShape key v ∧ WireShape (.object rest) := by
  rw [wireShape_object_iff, wireShape_object_iff, List.forall_mem_cons]

theorem unionShape_cons_iff :
    UnionShape (.object ((key, v) :: rest)) ↔ PartShape key v ∧ UnionShape (.object rest) := by
  rw [unionShape_object_iff, unionShape_object_iff, List.forall_mem_cons]

theorem mapShape_object_iff {members : List (String × Value)} :
    MapShape (.object members) ↔ ∀ entry ∈ members, WireShape entry.2 := by
  constructor
  · rintro (_ | ⟨h⟩) ⟨name, v⟩ hmem
    exact h name v hmem
  · exact fun h => .map fun _ _ => h _

end grammar

/-! ## Misfits -/

theorem stringMisfits_eq_nil_iff (key : String) (v : Value) :
    stringMisfits key v = [] ↔ TextShape v := by
  rw [textShape_iff]
  cases v <;> simp [stringMisfits]

theorem enumMisfits_eq_nil_iff (key : String) (v : Value) :
    enumMisfits key v = [] ↔ TextsShape v := by
  cases v with
  | null => exact iff_of_true rfl .null
  | array items =>
    have hitems : enumMisfits key (.array items) = [] ↔ ∀ x ∈ items, ∃ text, x = .string text := by
      rw [enumMisfits, List.flatten_eq_nil_iff]
      constructor
      · intro h x hx
        obtain ⟨i, hi, rfl⟩ := List.getElem_of_mem hx
        have hnil := h _ (List.mem_mapIdx.mpr ⟨i, hi, rfl⟩)
        cases hitem : items[i] with
        | string text => exact ⟨text, rfl⟩
        | _ => simp [hitem] at hnil
      · intro h misfits hmisfits
        obtain ⟨i, hi, rfl⟩ := List.mem_mapIdx.mp hmisfits
        obtain ⟨text, htext⟩ := h _ (List.getElem_mem hi)
        simp only [htext]
    rw [hitems]
    exact ⟨.texts, fun | .texts h => h⟩
  | _ => exact iff_of_false (by simp [enumMisfits]) nofun

mutual
/-- **A document without misfits is one that follows the grammar.** -/
theorem nodeMisfits_eq_nil_iff : ∀ v : Value, nodeMisfits v = [] ↔ WireShape v
  | .object members => by rw [nodeMisfits, memberMisfits_eq_nil_iff members]
  | .null | .bool _ | .number _ | .string _ | .array _ | .foreign _ =>
    iff_of_false (by simp [nodeMisfits]) nofun

theorem memberMisfits_eq_nil_iff :
    ∀ members, memberMisfits members = [] ↔ WireShape (.object members)
  | [] => iff_of_true (by simp [memberMisfits]) (wireShape_object_iff.mpr (by simp))
  | (key, v) :: rest => by
    have hmap := mapMisfits_eq_nil_iff v
    have hoptional := optionalMisfits_eq_nil_iff key v
    unfold memberMisfits
    rw [List.append_eq_nil_iff, memberMisfits_eq_nil_iff rest, wireShape_cons_iff]
    refine and_congr_left' ?_
    split
    · rw [List.map_eq_nil_iff, hmap]
      rfl
    · rw [List.map_eq_nil_iff, hmap]
      rfl
    · rw [List.map_eq_nil_iff, hmap]
      rfl
    · exact stringMisfits_eq_nil_iff _ v
    · exact stringMisfits_eq_nil_iff _ v
    · exact enumMisfits_eq_nil_iff _ v
    · exact hoptional
    · exact hoptional
    · cases v with
      | null => exact iff_of_true rfl .null
      | object parts =>
        simp only [List.map_eq_nil_iff]
        exact discriminatorMisfits_eq_nil_iff parts
      | _ => exact iff_of_false (by simp) nofun
    · exact iff_of_true rfl (by simp [KeywordShape, *])

theorem optionalMisfits_eq_nil_iff (key : String) :
    ∀ v : Value, optionalMisfits key v = [] ↔ OptionalShape v
  | .null => iff_of_true (by simp [optionalMisfits]) .null
  | .object members => by
    have hnode : OptionalShape (.object members) ↔ WireShape (.object members) :=
      ⟨fun | .node h => h, .node⟩
    rw [hnode, ← memberMisfits_eq_nil_iff members, optionalMisfits]
    cases memberMisfits members <;> simp
  | .bool _ | .number _ | .string _ | .array _ | .foreign _ =>
    iff_of_false (by simp [optionalMisfits]) nofun

theorem mapMisfits_eq_nil_iff : ∀ v : Value, mapMisfits v = [] ↔ MapShape v
  | .null => iff_of_true (by simp [mapMisfits]) .null
  | .object members => by
    rw [mapMisfits, entryMisfits_eq_nil_iff members, mapShape_object_iff]
  | .bool _ | .number _ | .string _ | .array _ | .foreign _ =>
    iff_of_false (by simp [mapMisfits]) nofun

theorem entryMisfits_eq_nil_iff :
    ∀ members, entryMisfits members = [] ↔ ∀ entry ∈ members, WireShape entry.2
  | [] => by simp [entryMisfits]
  | (_, v) :: rest => by
    rw [entryMisfits, List.append_eq_nil_iff, List.map_eq_nil_iff, nodeMisfits_eq_nil_iff v,
      entryMisfits_eq_nil_iff rest, List.forall_mem_cons]

theorem discriminatorMisfits_eq_nil_iff :
    ∀ parts, discriminatorMisfits parts = [] ↔ UnionShape (.object parts)
  | [] => iff_of_true (by simp [discriminatorMisfits]) (unionShape_object_iff.mpr (by simp))
  | (key, v) :: rest => by
    have hmap := mapMisfits_eq_nil_iff v
    unfold discriminatorMisfits
    rw [List.append_eq_nil_iff, discriminatorMisfits_eq_nil_iff rest, unionShape_cons_iff]
    refine and_congr_left' ?_
    split
    · exact stringMisfits_eq_nil_iff _ v
    · rw [List.map_eq_nil_iff, hmap]
      rfl
    · exact iff_of_true rfl (by simp [PartShape, *])
end

theorem culprit?_eq_none_iff {v : Value} : culprit? v = none ↔ WireShape v := by
  rw [culprit?, Option.map_eq_none_iff, ← nodeMisfits_eq_nil_iff]
  cases nodeMisfits v <;> simp [lastMisfit?]

/-! ## What is shown of a document that follows the grammar -/

mutual
theorem isShowable_nodeAlternatives :
    ∀ v : Value, v.isShowable = true → ∀ w ∈ nodeAlternatives v, w.isShowable = true
  | .object members, h => by
    rw [nodeAlternatives]
    exact isShowable_memberAlternatives members h
  | .null, _ | .bool _, _ | .number _, _ | .string _, _ | .array _, _ | .foreign _, _ => by
    simp [nodeAlternatives]

theorem isShowable_memberAlternatives : ∀ members, Value.allMembersShowable members = true →
    ∀ w ∈ memberAlternatives members, w.isShowable = true
  | [], _ => by simp [memberAlternatives]
  | (key, v) :: rest, h => by
    rw [Value.allMembersShowable, Bool.and_eq_true] at h
    have hmap := isShowable_mapAlternatives v h.1
    unfold memberAlternatives
    rw [List.forall_mem_append]
    refine ⟨?_, isShowable_memberAlternatives rest h.2⟩
    split
    · exact hmap
    · exact hmap
    · exact hmap
    · simpa using h.1
    · simpa using h.1
    · cases v with
      | object parts => exact isShowable_discriminatorAlternatives parts h.1
      | _ => simp
    · simp

theorem isShowable_mapAlternatives :
    ∀ v : Value, v.isShowable = true → ∀ w ∈ mapAlternatives v, w.isShowable = true
  | .object members, h => by
    rw [mapAlternatives]
    exact isShowable_entryAlternatives members h
  | .null, _ | .bool _, _ | .number _, _ | .string _, _ | .array _, _ | .foreign _, _ => by
    simp [mapAlternatives]

theorem isShowable_entryAlternatives : ∀ members, Value.allMembersShowable members = true →
    ∀ w ∈ entryAlternatives members, w.isShowable = true
  | [], _ => by simp [entryAlternatives]
  | (_, v) :: rest, h => by
    rw [Value.allMembersShowable, Bool.and_eq_true] at h
    rw [entryAlternatives, List.forall_mem_append]
    exact ⟨isShowable_nodeAlternatives v h.1, isShowable_entryAlternatives rest h.2⟩

theorem isShowable_discriminatorAlternatives : ∀ parts, Value.allMembersShowable parts = true →
    ∀ w ∈ discriminatorAlternatives parts, w.isShowable = true
  | [], _ => by simp [discriminatorAlternatives]
  | (key, v) :: rest, h => by
    rw [Value.allMembersShowable, Bool.and_eq_true] at h
    have hmap := isShowable_mapAlternatives v h.1
    unfold discriminatorAlternatives
    rw [List.forall_mem_append]
    refine ⟨?_, isShowable_discriminatorAlternatives rest h.2⟩
    split
    · exact hmap
    · simp
end

namespace Schema

variable {v : Value} {s : Schema}

/-- What is decoded: a document that follows the grammar and of which everything can be shown that
the check puts into words. -/
theorem decode_eq_ok_iff :
    decode v = .ok s ↔
      WireShape v ∧ (∀ w ∈ shownValues v, w.isShowable = true) ∧ s = ofValue v := by
  rw [decode, ← culprit?_eq_none_iff]
  split_ifs with hshown
  · rw [List.all_eq_true] at hshown
    cases culprit? v with
    | some culprit => simp
    | none =>
      simp only [Except.ok.injEq, true_and]
      exact ⟨fun h => ⟨hshown, h.symm⟩, fun h => h.2.symm⟩
  · rw [List.all_eq_true] at hshown
    simp [hshown]

/-- A document that follows the grammar is decoded if it can be shown as a whole. -/
theorem decode_eq_ok (hshape : WireShape v) (hv : v.isShowable = true) :
    decode v = .ok (ofValue v) := by
  refine decode_eq_ok_iff.mpr ⟨hshape, ?_, rfl⟩
  rw [shownValues, nodeMisfits_eq_nil_iff v |>.mpr hshape]
  exact isShowable_nodeAlternatives v hv

/-! ## Decoding unguarded -/

theorem textOrNull?_eq_some (h : TextShape v) : v.textOrNull? = some v.toString? := by
  cases h <;> rfl

theorem textOrBlank?_eq_some (h : TextShape v) :
    v.textOrBlank? = some (v.toString?.filter (· ≠ "")) := by
  cases h with
  | null => rfl
  | text text =>
    by_cases htext : text = "" <;>
      simp [Value.textOrBlank?, Value.isBlank, Value.textOrNull?, Value.toString?, htext,
        Option.filter_some]

/-- A text that is left out for being empty is the empty text after all. -/
theorem getD_filter_ne_empty (text : Option String) :
    (text.filter (· ≠ "")).getD "" = text.getD "" := by
  cases text with
  | none => rfl
  | some text =>
    by_cases htext : text = ""
    · rw [Option.filter_some_neg (by simp [htext]), htext]
      rfl
    · rw [Option.filter_some_pos (by simp [htext])]

theorem itemTextsOrNull?_eq_some : TextsShape v →
    v.itemTextsOrNull? = some (match v with
      | .array items => some (Value.strings items)
      | _ => none) := by
  intro h
  cases h with
  | null => rfl
  | @texts items hitems =>
    have hmap : items.mapM Value.toString? = some (Value.strings items) := by
      induction items with
      | nil => rfl
      | cons x rest ih =>
        rw [List.forall_mem_cons] at hitems
        obtain ⟨⟨text, rfl⟩, hrest⟩ := hitems
        simp [List.mapM_cons, Value.strings, Value.toString?, ih hrest]
    simp [Value.itemTextsOrNull?, Value.itemTexts?, hmap]

mutual
/-- **A document that follows the grammar can be decoded as it stands.** -/
theorem unguarded?_eq_some : ∀ v : Value, WireShape v → unguarded? v = some (ofValue v)
  | .object members, h => by
    rw [unguarded?, ofValue]
    exact unguardedMembers?_eq_some members h

theorem unguardedMembers?_eq_some :
    ∀ members, WireShape (.object members) → unguardedMembers? members = some (ofMembers members)
  | [], _ => by rw [unguardedMembers?, ofMembers]
  | (key, v) :: rest, h => by
    obtain ⟨hkey, hrest⟩ := wireShape_cons_iff.mp h
    have hmap := unguardedMap?_eq_some v
    have hnode := unguardedNode?_eq_some v
    have hunion := unguardedUnion?_eq_some v
    unfold unguardedMembers? ofMembers
    rw [unguardedMembers?_eq_some rest hrest]
    split
    · rw [hmap hkey]
      rfl
    · rw [textOrNull?_eq_some hkey]
      rfl
    · rw [textOrBlank?_eq_some hkey]
      rfl
    · rw [itemTextsOrNull?_eq_some hkey]
      rfl
    · rw [hnode hkey]
      rfl
    · rw [hmap hkey]
      rfl
    · rw [hmap hkey]
      rfl
    · rw [hnode hkey]
      rfl
    · rw [hunion hkey]
      rfl
    · simp [*]

theorem unguardedNode?_eq_some :
    ∀ v : Value, OptionalShape v → unguardedNode? v = some (nodeOfValue v)
  | .null, _ => by simp [unguardedNode?, nodeOfValue]
  | .object members, .node h => by
    rw [unguardedNode?, nodeOfValue, unguardedMembers?_eq_some members h]
    rfl

theorem unguardedMap?_eq_some : ∀ v : Value, MapShape v → unguardedMap? v = some (mapOfValue v)
  | .null, _ => by simp [unguardedMap?, mapOfValue]
  | .object members, h => by
    rw [unguardedMap?, mapOfValue, unguardedEntries?_eq_some members (mapShape_object_iff.mp h)]
    rfl

theorem unguardedEntries?_eq_some : ∀ members : List (String × Value),
    (∀ entry ∈ members, WireShape entry.2) → unguardedEntries? members = some (mapOfMembers members)
  | [], _ => by rw [unguardedEntries?, mapOfMembers]
  | (key, v) :: rest, h => by
    rw [List.forall_mem_cons] at h
    rw [unguardedEntries?, mapOfMembers, unguarded?_eq_some v h.1,
      unguardedEntries?_eq_some rest h.2]
    rfl

theorem unguardedUnion?_eq_some : ∀ v : Value, UnionShape v →
    unguardedUnion? v = some (match v with
      | .object parts => some (discriminatorOfMembers parts)
      | _ => none)
  | .null, _ => by rw [unguardedUnion?]
  | .object parts, h => by
    rw [unguardedUnion?, unguardedParts?_eq_some parts h]
    rfl

theorem unguardedParts?_eq_some :
    ∀ parts, UnionShape (.object parts) → unguardedParts? parts = some (discriminatorOfMembers parts)
  | [], _ => by rw [unguardedParts?, discriminatorOfMembers]
  | (key, v) :: rest, h => by
    obtain ⟨hkey, hrest⟩ := unionShape_cons_iff.mp h
    have hmap := unguardedMap?_eq_some v
    unfold unguardedParts? discriminatorOfMembers
    rw [unguardedParts?_eq_some rest hrest]
    split
    · rw [textOrBlank?_eq_some hkey]
      exact congrArg (fun tag => some { discriminatorOfMembers rest with tag })
        (getD_filter_ne_empty v.toString?)
    · exact congrArg (fun found => found.bind fun mapping =>
        some { discriminatorOfMembers rest with mapping }) (hmap hkey)
    · simp [*]
end

/-! ## Documents -/

/-- **The documents that are decoded are those that follow the grammar**, and one that follows it
can be decoded without a look at its shape, to the same schema. -/
theorem decode_iff_wireShape (d : Value) :
    (∀ text, Json.read text = .ok d → ((∃ s, decode d = .ok s) ↔ WireShape d)) ∧
      (WireShape d → unguarded? d = some (ofValue d)) := by
  refine ⟨fun text hread => ⟨?_, fun hshape => ?_⟩, unguarded?_eq_some d⟩
  · rintro ⟨s, hs⟩
    exact (decode_eq_ok_iff.mp hs).1
  · exact ⟨ofValue d, decode_eq_ok hshape (Json.isShowable_of_readWith hread)⟩

/-- A list of texts, described with a keyword that is null and one that is not known. -/
theorem decode_list_of_texts :
    let text := "\x7b\"elements\": \x7b\"type\": \"string\"\x7d, \"ref\": null, \"x\": [1]\x7d"
    let d := Value.object [("elements", .object [("type", .string "string")]), ("ref", .null),
      ("x", .array [.number (.int 1)])]
    Json.read text = .ok d ∧ WireShape d ∧ (∃ s, decode d = .ok s) ∧
      unguarded? d = some { empty with elements := some { empty with type := some "string" } } := by
  intro text d
  have hdocument : Json.readDocument .replaced text.toList = .ok d := by
    simp only [text, String.reduceToList]
    rfl
  have hread : Json.read text = .ok d := by rw [Json.read, Json.readWith, hdocument]
  have hshape : WireShape d := (nodeMisfits_eq_nil_iff d).mp (by rfl)
  have hd := decode_iff_wireShape d
  have hvalue : ofValue d = { empty with elements := some { empty with type := some "string" } } := by
    rfl
  exact ⟨hread, hshape, (hd.1 text hread).mpr hshape, hvalue ▸ hd.2 hshape⟩

end Schema

end SchemaForms
