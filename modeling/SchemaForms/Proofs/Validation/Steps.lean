import SchemaForms.Proofs.Schema.Correct
import SchemaForms.Proofs.Validation.Parts
import SchemaForms.Proofs.Validation.Types
import SchemaForms.Proofs.Value.Json

/-!
# What a step does

The parts of a step are described by the keywords of the node: `Frame.Enters` are the frames it goes
on to, and `Rejects` the ways in which a node rejects a value by itself. A step under a correct node
enters and records only these, and it halts at a reference at the limit on depth or at a leaf that
no JSON text can express (`does_or_meetsLeaf`). On a value without such leaves it does all of this
and nothing else (`mem_parts_iff`).
-/

namespace SchemaForms

/-- The frames that a step goes on to. -/
inductive Frame.Enters (config : Config) (root : Schema) (f : Frame) : Frame → Prop
  | definition {name : String} {target : Schema} (h : f.schema.ref = some name)
      (htarget : (entries root.definitions).lookup name = some target)
      (hdepth : config.maxDepth ≠ f.location.depth) : Enters config root f (f.follow name target)
  | item {item : Schema} {items : List Value} {i : Nat} {x : Value}
      (h : f.schema.elements = some item) (hv : f.value = .array items) (hx : items[i]? = some x) :
      Enters config root f (f.enter (toString i) ["elements"] item x)
  | required {members : List (String × Value)} {name : String} {sub : Schema} {x : Value}
      (h : (name, sub) ∈ entries f.schema.properties) (hv : f.value = .object members)
      (hx : members.lookup name = some x) :
      Enters config root f (f.enter name ["properties", name] sub x)
  | optional {members : List (String × Value)} {name : String} {sub : Schema} {x : Value}
      (h : (name, sub) ∈ entries f.schema.optionalProperties) (hv : f.value = .object members)
      (hx : members.lookup name = some x) :
      Enters config root f (f.enter name ["optionalProperties", name] sub x)
  | member {member : Schema} {members : List (String × Value)} {key : String} {x : Value}
      (h : f.schema.values = some member) (hv : f.value = .object members)
      (hx : (key, x) ∈ members) : Enters config root f (f.enter key ["values"] member x)
  | tagged {tag text : String} {mapping : List (String × Schema)} {target : Schema}
      {members : List (String × Value)} (h : f.schema.discriminator = some ⟨tag, some mapping⟩)
      (hv : f.value = .object members) (htag : members.lookup tag = some (.string text))
      (htarget : mapping.lookup text = some target) :
      Enters config root f (f.choose tag text target)

/-- The node rejects a value by itself: the blame is on what stands at a place in the value, and on
a keyword of the node. `tag` is the member that chose the node, if a tagged union did. -/
inductive Rejects (strict : Bool) (tag : Option String) (s : Schema) :
    (value : Value) → (place : List String) → (blamed : Value) → (keywords : List String) → Prop
  | type {typeName : String} {t : ScalarType} {v : Value} (h : s.type = some typeName)
      (ht : t.name = typeName) (hv : ¬ t.Holds v) : Rejects strict tag s v [] v ["type"]
  | enum {texts : List String} {v : Value} (h : s.enum = some texts)
      (hv : ∀ text ∈ texts, v ≠ .string text) : Rejects strict tag s v [] v ["enum"]
  | elements {item : Schema} {v : Value} (h : s.elements = some item)
      (hv : ∀ items, v ≠ .array items) : Rejects strict tag s v [] v ["elements"]
  | properties {map : List (String × Schema)} {v : Value} (h : s.properties = some map)
      (hv : ∀ members, v ≠ .object members) : Rejects strict tag s v [] v ["properties"]
  | optionalProperties {map : List (String × Schema)} {v : Value} (h : s.properties = none)
      (ho : s.optionalProperties = some map) (hv : ∀ members, v ≠ .object members) :
      Rejects strict tag s v [] v ["optionalProperties"]
  | missing {name : String} {sub : Schema} {members : List (String × Value)}
      (h : (name, sub) ∈ entries s.properties) (hname : name ∉ members.map (·.1)) :
      Rejects strict tag s (.object members) [] (.object members) ["properties", name]
  | undeclared {key : String} {x : Value} {members : List (String × Value)}
      (h : s.Populates .properties) (hstrict : strict = true) (hx : (key, x) ∈ members)
      (hrequired : key ∉ keys s.properties) (hoptional : key ∉ keys s.optionalProperties)
      (htag : tag ≠ some key) : Rejects strict tag s (.object members) [key] x []
  | values {member : Schema} {v : Value} (h : s.values = some member)
      (hv : ∀ members, v ≠ .object members) : Rejects strict tag s v [] v ["values"]
  | discriminator {unionTag : String} {mapping : List (String × Schema)} {v : Value}
      (h : s.discriminator = some ⟨unionTag, some mapping⟩) (hv : ∀ members, v ≠ .object members) :
      Rejects strict tag s v [] v ["discriminator"]
  | noTag {unionTag : String} {mapping : List (String × Schema)} {members : List (String × Value)}
      (h : s.discriminator = some ⟨unionTag, some mapping⟩)
      (hkey : unionTag ∉ members.map (·.1)) :
      Rejects strict tag s (.object members) [] (.object members) ["discriminator", "tag"]
  | tagKind {unionTag : String} {mapping : List (String × Schema)}
      {members : List (String × Value)} {x : Value}
      (h : s.discriminator = some ⟨unionTag, some mapping⟩) (hx : members.lookup unionTag = some x)
      (htext : ∀ text, x ≠ .string text) :
      Rejects strict tag s (.object members) [unionTag] x ["discriminator", "tag"]
  | mapping {unionTag text : String} {mapping : List (String × Schema)}
      {members : List (String × Value)} (h : s.discriminator = some ⟨unionTag, some mapping⟩)
      (hx : members.lookup unionTag = some (.string text)) (htext : text ∉ mapping.map (·.1)) :
      Rejects strict tag s (.object members) [unionTag] (.string text) ["discriminator", "mapping"]

namespace Frame

/-- The violation at a place in the value of a frame and a keyword of its node. -/
def violation (f : Frame) (place keywords : List String) : Violation :=
  ⟨f.location.instancePath ++ place, f.location.schemaPath ++ keywords⟩

/-- The parts of a step under a correct node. -/
inductive Does (config : Config) (root : Schema) (f : Frame) : Part → Prop
  | enters {g : Frame} (h : f.Enters config root g) : Does config root f (.visit g)
  | rejects {place keywords : List String} {blamed : Value}
      (h : Rejects config.strict f.tag f.schema f.value place blamed keywords) :
      Does config root f (.report (f.violation place keywords))
  | tooDeep {name : String} (h : f.schema.ref = some name)
      (hdepth : config.maxDepth = f.location.depth) : Does config root f (.halt .tooDeep)

/-- The part halts at a leaf that no JSON text can express. -/
def MeetsLeaf (f : Frame) (p : Part) : Prop :=
  f.value.isJson = false ∧ ∃ className, p = .halt (.fault (.notJson className))

end Frame

namespace Frame

variable {config : Config} {root : Schema} {f : Frame} {p : Part}

theorem resolved_eq (h : f.value.isJson) : f.resolved = f := by
  obtain ⟨l, tag, s, around, v⟩ := f
  cases v with
  | foreign leaf => cases h
  | _ => rfl

theorem onJson_eq (h : f.value.isJson) (parts : List Part) : f.onJson parts = parts := by
  rw [onJson]
  cases hv : f.value with
  | foreign leaf =>
    rw [hv] at h
    cases h
  | _ => rfl

theorem blame_eq (f : Frame) (keywords : List String) :
    f.blame keywords = .report (f.violation [] keywords) := by
  simp [blame, Location.under, Location.violation, violation]

theorem blameMember_eq (f : Frame) (key : String) (keywords : List String) :
    f.blameMember key keywords = .report (f.violation [key] keywords) := rfl

/-! ## The parts of each rule -/

theorem refParts_eq {name : String} {target : Schema}
    (h : (entries root.definitions).lookup name = some target) :
    f.refParts config root name =
      if config.maxDepth = f.location.depth then [.halt .tooDeep]
      else [.visit (f.follow name target)] := by
  cases hd : root.definitions with
  | none => simp [hd, entries] at h
  | some definitions =>
    have h' : definitions.lookup name = some target := by simpa [hd, entries] using h
    simp only [refParts, hd, h']

theorem mem_refParts_iff {name : String} {target : Schema}
    (h : (entries root.definitions).lookup name = some target) :
    p ∈ f.refParts config root name ↔
      config.maxDepth = f.location.depth ∧ p = .halt .tooDeep ∨
        config.maxDepth ≠ f.location.depth ∧ p = .visit (f.follow name target) := by
  rw [refParts_eq h]
  split_ifs with hdepth
  · simp [hdepth]
  · simp [hdepth]

theorem mem_scalarParts_iff {t : ScalarType} :
    p ∈ f.scalarParts t.name ↔ ¬ t.Holds f.value ∧ p = f.blame ["type"] := by
  rw [scalarParts, (ScalarType.ofName?_eq_some_iff t.name t).mpr rfl, ← ScalarType.admits_iff_holds]
  simp only
  split_ifs with h
  · simp [h]
  · simp [h]

theorem mem_enumParts_iff {texts : List String} :
    p ∈ f.enumParts texts ↔
      (∀ text ∈ texts, f.value ≠ .string text) ∧ p = f.blame ["enum"] := by
  unfold enumParts
  cases hv : f.value with
  | string text =>
    by_cases h : text ∈ texts
    · simp only [List.contains_iff_mem, h, if_true, List.not_mem_nil, false_iff, not_and]
      exact fun hall => absurd rfl (hall text h)
    · simp only [List.contains_iff_mem, h, if_false, List.mem_singleton, Value.string.injEq,
        ne_eq, iff_and_self]
      rintro - x hx rfl
      exact h hx
  | _ => simp

theorem mem_elementParts_iff {item : Schema} :
    p ∈ f.elementParts item ↔
      (∃ items, ∃ i : Nat, ∃ x, f.value = .array items ∧ items[i]? = some x ∧
        p = .visit (f.enter (toString i) ["elements"] item x)) ∨
      (∀ items, f.value ≠ .array items) ∧ p = f.blame ["elements"] := by
  unfold elementParts
  cases hv : f.value with
  | array items =>
    simp only [List.mem_mapIdx, Value.array.injEq, exists_and_left, exists_eq_left', ne_eq,
      forall_eq', false_and, or_false]
    constructor
    · rintro ⟨i, hi, rfl⟩
      exact ⟨i, items[i], List.getElem?_eq_getElem hi, rfl⟩
    · rintro ⟨i, x, hx, rfl⟩
      obtain ⟨hi, rfl⟩ := List.getElem?_eq_some_iff.mp hx
      exact ⟨i, hi, rfl⟩
  | _ => simp

theorem mem_requiredPart_iff {members : List (String × Value)} {required : List (String × Schema)} :
    (p ∈ required.map fun (name, sub) => f.requiredPart members name sub) ↔
      (∃ name sub x, (name, sub) ∈ required ∧ members.lookup name = some x ∧
        p = .visit (f.enter name ["properties", name] sub x)) ∨
      ∃ name sub, (name, sub) ∈ required ∧ name ∉ members.map (·.1) ∧
        p = f.blame ["properties", name] := by
  rw [List.mem_map]
  simp only [requiredPart]
  constructor
  · rintro ⟨⟨name, sub⟩, hmem, rfl⟩
    cases hx : members.lookup name with
    | none => exact .inr ⟨name, sub, hmem, lookup_eq_none_iff_keys.mp hx, rfl⟩
    | some x => exact .inl ⟨name, sub, x, hmem, hx, rfl⟩
  · rintro (⟨name, sub, x, hmem, hx, rfl⟩ | ⟨name, sub, hmem, hname, rfl⟩)
    · exact ⟨(name, sub), hmem, by simp only [hx]⟩
    · exact ⟨(name, sub), hmem, by simp only [lookup_eq_none_iff_keys.mpr hname]⟩

theorem mem_optionalPart_iff {members : List (String × Value)} {optional : List (String × Schema)} :
    (p ∈ optional.filterMap fun (name, sub) => f.optionalPart members name sub) ↔
      ∃ name sub x, (name, sub) ∈ optional ∧ members.lookup name = some x ∧
        p = .visit (f.enter name ["optionalProperties", name] sub x) := by
  simp only [List.mem_filterMap, optionalPart, Option.map_eq_some_iff, Prod.exists]
  constructor
  · rintro ⟨name, sub, hmem, x, hx, rfl⟩
    exact ⟨name, sub, x, hmem, hx, rfl⟩
  · rintro ⟨name, sub, x, hmem, hx, rfl⟩
    exact ⟨name, sub, hmem, x, hx, rfl⟩

theorem mem_propertyParts_iff {required optional : Option (List (String × Schema))} :
    p ∈ f.propertyParts config required optional ↔
      (∃ members, f.value = .object members ∧
        p ∈ f.memberParts config (entries required) (entries optional) members) ∨
      (∀ members, f.value ≠ .object members) ∧
        p = f.blame [if required.isSome then "properties" else "optionalProperties"] := by
  unfold propertyParts
  cases hv : f.value with
  | object members => simp
  | _ => simp

theorem mem_unionParts_iff {tag : String} {mapping : List (String × Schema)} :
    p ∈ f.unionParts tag mapping ↔
      (∃ members, f.value = .object members ∧ p ∈ f.tagParts tag mapping members) ∨
      (∀ members, f.value ≠ .object members) ∧ p = f.blame ["discriminator"] := by
  unfold unionParts
  cases hv : f.value with
  | object members => simp
  | _ => simp

/-- The keys of an object that the schema does not declare; the tag that chose the schema counts as
declared. -/
def undeclaredKeys (f : Frame) (declared : List String) (members : List (String × Value)) :
    List String :=
  (members.map (·.1)).filter fun key => some key ≠ f.tag && !declared.contains key

theorem undeclaredParts_eq (declared : List String) (members : List (String × Value)) :
    f.undeclaredParts config declared members =
      if config.strict then
        (f.undeclaredKeys declared members).map fun key => .report (f.violation [key] [])
      else [] := by
  rw [undeclaredParts, undeclaredKeys, List.filter_map, List.map_map]
  rfl

theorem mem_undeclaredKeys_iff {declared : List String} {members : List (String × Value)}
    {key : String} :
    key ∈ f.undeclaredKeys declared members ↔
      key ∈ members.map (·.1) ∧ f.tag ≠ some key ∧ key ∉ declared := by
  simp only [undeclaredKeys, List.mem_filter, Bool.and_eq_true, decide_eq_true_eq,
    Bool.not_eq_true', List.contains_eq_mem, decide_eq_false_iff_not, ne_comm]

theorem mem_undeclaredParts_iff {declared : List String} {members : List (String × Value)} :
    p ∈ f.undeclaredParts config declared members ↔
      config.strict = true ∧ ∃ key ∈ members.map (·.1), f.tag ≠ some key ∧ key ∉ declared ∧
        p = f.blameMember key [] := by
  rw [undeclaredParts_eq]
  split_ifs with hstrict
  · simp only [List.mem_map, mem_undeclaredKeys_iff, hstrict, true_and, and_assoc, blameMember_eq,
      eq_comm]
  · simp [hstrict]

theorem mem_valueParts_iff {member : Schema} :
    p ∈ f.valueParts member ↔
      (∃ members key x, f.value = .object members ∧ (key, x) ∈ members ∧
        p = .visit (f.enter key ["values"] member x)) ∨
      (∀ members, f.value ≠ .object members) ∧ p = f.blame ["values"] := by
  unfold valueParts
  cases hv : f.value with
  | object members =>
    simp only [List.mem_map, Prod.exists, Value.object.injEq, exists_and_left, exists_eq_left',
      ne_eq, forall_eq', false_and, or_false]
    constructor
    · rintro ⟨key, x, hmem, rfl⟩
      exact ⟨key, x, hmem, rfl⟩
    · rintro ⟨key, x, hmem, rfl⟩
      exact ⟨key, x, hmem, rfl⟩
  | _ => simp

theorem elementParts_of_ne {item : Schema} (h : ∀ items, f.value ≠ .array items) :
    f.elementParts item = [f.blame ["elements"]] := by
  unfold elementParts
  split
  · exact absurd ‹_› (h _)
  · rfl

theorem propertyParts_of_ne {required optional : Option (List (String × Schema))}
    (h : ∀ members, f.value ≠ .object members) :
    f.propertyParts config required optional =
      [f.blame [if required.isSome then "properties" else "optionalProperties"]] := by
  unfold propertyParts
  split
  · exact absurd ‹_› (h _)
  · rfl

theorem valueParts_of_ne {member : Schema} (h : ∀ members, f.value ≠ .object members) :
    f.valueParts member = [f.blame ["values"]] := by
  unfold valueParts
  split
  · exact absurd ‹_› (h _)
  · rfl

theorem unionParts_of_ne {tag : String} {mapping : List (String × Schema)}
    (h : ∀ members, f.value ≠ .object members) :
    f.unionParts tag mapping = [f.blame ["discriminator"]] := by
  unfold unionParts
  split
  · exact absurd ‹_› (h _)
  · rfl

section tags
variable {tag text : String} {mapping : List (String × Schema)} {members : List (String × Value)}
  {x : Value}

theorem tagParts_of_none (h : members.lookup tag = none) :
    f.tagParts tag mapping members = [f.blame ["discriminator", "tag"]] := by
  simp only [tagParts, h]

theorem tagParts_of_text (h : members.lookup tag = some (.string text)) :
    f.tagParts tag mapping members = match mapping.lookup text with
      | some target => [.visit (f.choose tag text target)]
      | none => [f.blameMember tag ["discriminator", "mapping"]] := by
  cases ht : mapping.lookup text with
  | none => simp only [tagParts, h, Value.kindOf, ht]
  | some target => simp only [tagParts, h, Value.kindOf, ht]

theorem tagParts_of_ne {kind : Kind} (h : members.lookup tag = some x) (hkind : x.kindOf = .ok kind)
    (hx : ∀ text, x ≠ .string text) :
    f.tagParts tag mapping members = [f.blameMember tag ["discriminator", "tag"]] := by
  cases x with
  | string text => exact absurd rfl (hx text)
  | _ => simp only [tagParts, h, hkind]

end tags

/-- The parts for a tag, when no member is a foreign leaf. -/
theorem mem_tagParts_iff {tag : String} {mapping : List (String × Schema)}
    {members : List (String × Value)} (hjson : (Value.object members).isJson) :
    p ∈ f.tagParts tag mapping members ↔
      (tag ∉ members.map (·.1) ∧ p = f.blame ["discriminator", "tag"]) ∨
      (∃ x, members.lookup tag = some x ∧ (∀ text, x ≠ .string text) ∧
        p = f.blameMember tag ["discriminator", "tag"]) ∨
      (∃ text, members.lookup tag = some (.string text) ∧ text ∉ mapping.map (·.1) ∧
        p = f.blameMember tag ["discriminator", "mapping"]) ∨
      ∃ text target, members.lookup tag = some (.string text) ∧ mapping.lookup text = some target ∧
        p = .visit (f.choose tag text target) := by
  rw [tagParts]
  cases hx : members.lookup tag with
  | none => simp [lookup_eq_none_iff_keys.mp hx]
  | some x =>
    have hkey : tag ∈ members.map (·.1) := by
      by_contra h
      simp [lookup_eq_none_iff_keys.mpr h] at hx
    have hxjson := isJson_object_iff.mp hjson tag x (mem_of_lookup hx)
    simp only [hkey, not_true_eq_false, false_and, false_or, Option.some.injEq, exists_eq_left']
    cases x with
    | foreign leaf => cases hxjson
    | string text =>
      simp only [Value.kindOf, Value.string.injEq, exists_eq_left', ← lookup_eq_none_iff_keys]
      cases ht : mapping.lookup text with
      | none => simp [ht]
      | some target => simp [ht]
    | _ => simp [Value.kindOf]

/-! ## A step under a correct node -/

/-- The parts of a step, once the rule of the node is known. -/
theorem parts_eq_of_readOff (hsole : f.schema.Sole) (hjson : f.value.isJson) {r : Rule}
    (h : r.ReadOff f.schema) :
    f.parts config root = match r with
      | .anything => []
      | .definition name => f.refParts config root name
      | .scalar typeName => f.scalarParts typeName
      | .oneOf texts => f.enumParts texts
      | .elements item => f.elementParts item
      | .properties required optional => f.propertyParts config required optional
      | .values member => f.valueParts member
      | .tagged tag mapping => f.unionParts tag mapping := by
  rw [parts, resolved_eq hjson, partsHere, hsole.rule_eq h]
  cases r <;> simp only [onJson_eq hjson]

theorem Does.of_rejects {v blamed : Value} {place keywords : List String} (hv : f.value = v)
    (h : Rejects config.strict f.tag f.schema v place blamed keywords) :
    f.Does config root (.report (f.violation place keywords)) := by
  rw [← hv] at h
  exact .rejects h

theorem does_of_mem_memberParts {members : List (String × Value)}
    (hp : f.schema.Populates .properties) (hv : f.value = .object members)
    (h : p ∈ f.memberParts config (entries f.schema.properties)
      (entries f.schema.optionalProperties) members) : f.Does config root p := by
  rw [memberParts, List.mem_append, List.mem_append, mem_requiredPart_iff, mem_optionalPart_iff,
    mem_undeclaredParts_iff] at h
  rcases h with (⟨name, sub, x, hsub, hx, rfl⟩ | ⟨name, sub, hsub, hname, rfl⟩) |
    ⟨name, sub, x, hsub, hx, rfl⟩ | ⟨hstrict, key, hkey, htag, hdeclared, rfl⟩
  · exact .enters (.required hsub hv hx)
  · rw [blame_eq]
    exact .of_rejects hv (.missing hsub hname)
  · exact .enters (.optional hsub hv hx)
  · rw [List.map_append, List.mem_append, not_or] at hdeclared
    obtain ⟨⟨_, x⟩, hx, rfl⟩ := List.mem_map.mp hkey
    exact .of_rejects hv (.undeclared hp hstrict hx hdeclared.1 hdeclared.2 htag)

theorem meetsLeaf_of_kindOf {leaf : Foreign} (h : f.value.kindOf = .error leaf) :
    f.MeetsLeaf (.halt (.fault (.notJson leaf.className))) := by
  refine ⟨Bool.eq_false_iff.mpr fun hjson => ?_, _, rfl⟩
  obtain ⟨kind, hkind⟩ := exists_kindOf hjson
  rw [hkind] at h
  cases h

theorem mem_or_meetsLeaf_of_mem_onJson {parts : List Part} (h : p ∈ f.onJson parts) :
    p ∈ parts ∨ f.MeetsLeaf p := by
  rw [onJson] at h
  split at h
  · exact .inl h
  · next leaf hleaf =>
    obtain rfl := List.mem_singleton.mp h
    exact .inr (meetsLeaf_of_kindOf hleaf)

theorem does_or_meetsLeaf_of_mem_tagParts {tag : String} {mapping : List (String × Schema)}
    {members : List (String × Value)} (hd : f.schema.discriminator = some ⟨tag, some mapping⟩)
    (hv : f.value = .object members) (h : p ∈ f.tagParts tag mapping members) :
    f.Does config root p ∨ f.MeetsLeaf p := by
  cases hx : members.lookup tag with
  | none =>
    rw [tagParts_of_none hx, List.mem_singleton, blame_eq] at h
    subst h
    exact .inl (.of_rejects hv (.noTag hd (lookup_eq_none_iff_keys.mp hx)))
  | some x =>
    by_cases htext : ∃ text, x = .string text
    · obtain ⟨text, rfl⟩ := htext
      rw [tagParts_of_text hx] at h
      cases ht : mapping.lookup text with
      | none =>
        simp only [ht, List.mem_singleton, blameMember_eq] at h
        subst h
        exact .inl (.of_rejects hv (.mapping hd hx (lookup_eq_none_iff_keys.mp ht)))
      | some target =>
        simp only [ht, List.mem_singleton] at h
        subst h
        exact .inl (.enters (.tagged hd hv hx ht))
    · have hne : ∀ text, x ≠ .string text := not_exists.mp htext
      cases hkind : x.kindOf with
      | ok kind =>
        rw [tagParts_of_ne hx hkind hne, List.mem_singleton, blameMember_eq] at h
        subst h
        exact .inl (.of_rejects hv (.tagKind hd hx hne))
      | error leaf =>
        simp only [tagParts, hx, hkind, List.mem_singleton] at h
        refine .inr ⟨Bool.eq_false_iff.mpr fun hjson => ?_, _, h⟩
        rw [hv] at hjson
        obtain ⟨kind, hok⟩ := exists_kindOf (isJson_object_iff.mp hjson tag x (mem_of_lookup hx))
        rw [hkind] at hok
        cases hok

theorem does_or_meetsLeaf_of_mem_partsHere (hc : f.schema.Correct (keys root.definitions))
    (h : p ∈ f.partsHere config root) : f.Does config root p ∨ f.MeetsLeaf p := by
  obtain ⟨r, hread⟩ : ∃ r : Rule, r.ReadOff f.schema := ⟨_, f.schema.rule_readOff⟩
  rw [partsHere, hc.sole.rule_eq hread] at h
  cases r with
  | anything => cases h
  | definition name =>
    obtain ⟨target, htarget⟩ := exists_lookup_of_mem_keys (hc.ref name hread)
    rcases (mem_refParts_iff htarget).mp h with ⟨hdepth, rfl⟩ | ⟨hdepth, rfl⟩
    · exact .inl (.tooDeep hread hdepth)
    · exact .inl (.enters (.definition hread htarget hdepth))
  | scalar typeName =>
    obtain ⟨t, -, rfl⟩ := List.mem_map.mp (hc.type typeName hread.1 hread.2)
    apply (mem_or_meetsLeaf_of_mem_onJson h).imp_left
    intro h
    obtain ⟨hv, rfl⟩ := mem_scalarParts_iff.mp h
    rw [blame_eq]
    exact .rejects (.type hread.1 rfl hv)
  | oneOf texts =>
    apply (mem_or_meetsLeaf_of_mem_onJson h).imp_left
    intro h
    obtain ⟨hv, rfl⟩ := mem_enumParts_iff.mp h
    rw [blame_eq]
    exact .rejects (.enum hread hv)
  | elements item =>
    apply (mem_or_meetsLeaf_of_mem_onJson h).imp_left
    intro h
    rcases mem_elementParts_iff.mp h with ⟨items, i, x, hv, hx, rfl⟩ | ⟨hv, rfl⟩
    · exact .enters (.item hread hv hx)
    · rw [blame_eq]
      exact .rejects (.elements hread hv)
  | properties required optional =>
    obtain ⟨rfl, rfl, hpopulates⟩ := hread
    apply (mem_or_meetsLeaf_of_mem_onJson h).imp_left
    intro h
    rcases mem_propertyParts_iff.mp h with ⟨members, hv, h⟩ | ⟨hv, rfl⟩
    · exact does_of_mem_memberParts hpopulates hv h
    · rw [blame_eq]
      cases hrequired : f.schema.properties with
      | some map => exact .rejects (.properties hrequired hv)
      | none =>
        rcases hpopulates with ⟨map, hmap⟩ | ⟨map, hmap⟩
        · simp [hrequired] at hmap
        · exact .rejects (.optionalProperties hrequired hmap hv)
  | values member =>
    apply (mem_or_meetsLeaf_of_mem_onJson h).imp_left
    intro h
    rcases mem_valueParts_iff.mp h with ⟨members, key, x, hv, hx, rfl⟩ | ⟨hv, rfl⟩
    · exact .enters (.member hread hv hx)
    · rw [blame_eq]
      exact .rejects (.values hread hv)
  | tagged tag mapping =>
    rcases mem_or_meetsLeaf_of_mem_onJson h with h | hleaf
    · rcases mem_unionParts_iff.mp h with ⟨members, hv, h⟩ | ⟨hv, rfl⟩
      · exact does_or_meetsLeaf_of_mem_tagParts hread hv h
      · rw [blame_eq]
        exact .inl (.rejects (.discriminator hread hv))
    · exact .inr hleaf

/-- What a step under a correct node does on any value. -/
theorem does_or_meetsLeaf (hc : f.schema.Correct (keys root.definitions))
    (h : p ∈ f.parts config root) : f.resolved.Does config root p ∨ f.resolved.MeetsLeaf p :=
  does_or_meetsLeaf_of_mem_partsHere (f := f.resolved) hc h

theorem does_of_mem_parts (hc : f.schema.Correct (keys root.definitions)) (hjson : f.value.isJson)
    (h : p ∈ f.parts config root) : f.Does config root p := by
  have hdoes := does_or_meetsLeaf hc h
  rw [resolved_eq hjson] at hdoes
  apply hdoes.resolve_right
  rintro ⟨hvalue, -⟩
  rw [hjson] at hvalue
  cases hvalue

/-- A reference below the limit on depth is followed, and that is all. -/
theorem parts_eq_follow {name : String} {target : Schema} (hsole : f.schema.Sole)
    (hjson : f.value.isJson) (href : f.schema.ref = some name)
    (htarget : (entries root.definitions).lookup name = some target)
    (hdepth : config.maxDepth ≠ f.location.depth) :
    f.parts config root = [.visit (f.follow name target)] := by
  rw [parts_eq_of_readOff hsole hjson (r := .definition name) href]
  simp only
  rw [refParts_eq htarget, if_neg hdepth]

/-- The rule of a node with properties is read off both maps. -/
theorem parts_eq_propertyParts (hsole : f.schema.Sole) (hjson : f.value.isJson)
    (h : f.schema.Populates .properties) :
    f.parts config root =
      f.propertyParts config f.schema.properties f.schema.optionalProperties :=
  parts_eq_of_readOff hsole hjson (r := .properties _ _) ⟨rfl, rfl, h⟩

theorem mem_parts_of_enters {g : Frame} (hsole : f.schema.Sole) (hjson : f.value.isJson)
    (h : f.Enters config root g) : .visit g ∈ f.parts config root := by
  cases h with
  | definition h htarget hdepth =>
    rw [parts_eq_of_readOff hsole hjson (r := .definition _) h]
    exact (mem_refParts_iff htarget).mpr (.inr ⟨hdepth, rfl⟩)
  | item h hv hx =>
    rw [parts_eq_of_readOff hsole hjson (r := .elements _) h]
    exact mem_elementParts_iff.mpr (.inl ⟨_, _, _, hv, hx, rfl⟩)
  | required h hv hx =>
    obtain ⟨map, hmap, -⟩ := mem_entries.mp h
    rw [parts_eq_propertyParts hsole hjson (.inl ⟨map, hmap⟩)]
    refine mem_propertyParts_iff.mpr (.inl ⟨_, hv, List.mem_append_left _ ?_⟩)
    exact mem_requiredPart_iff.mpr (.inl ⟨_, _, _, h, hx, rfl⟩)
  | optional h hv hx =>
    obtain ⟨map, hmap, -⟩ := mem_entries.mp h
    rw [parts_eq_propertyParts hsole hjson (.inr ⟨map, hmap⟩)]
    refine mem_propertyParts_iff.mpr
      (.inl ⟨_, hv, List.mem_append_right _ (List.mem_append_left _ ?_)⟩)
    exact mem_optionalPart_iff.mpr ⟨_, _, _, h, hx, rfl⟩
  | member h hv hx =>
    rw [parts_eq_of_readOff hsole hjson (r := .values _) h]
    exact mem_valueParts_iff.mpr (.inl ⟨_, _, _, hv, hx, rfl⟩)
  | tagged h hv htag htarget =>
    rw [parts_eq_of_readOff hsole hjson (r := .tagged _ _) h]
    refine mem_unionParts_iff.mpr (.inl ⟨_, hv, (mem_tagParts_iff (hv ▸ hjson)).mpr ?_⟩)
    exact .inr (.inr (.inr ⟨_, _, htag, htarget, rfl⟩))

theorem mem_parts_of_rejects {v blamed : Value} {place keywords : List String}
    (hsole : f.schema.Sole) (hjson : f.value.isJson) (hv : f.value = v)
    (h : Rejects config.strict f.tag f.schema v place blamed keywords) :
    .report (f.violation place keywords) ∈ f.parts config root := by
  cases h with
  | @type _ t _ h ht hn =>
    subst ht
    rw [parts_eq_of_readOff hsole hjson (r := .scalar _) ⟨h, t.name_ne_empty⟩, ← blame_eq]
    exact mem_scalarParts_iff.mpr ⟨hv ▸ hn, rfl⟩
  | enum h hn =>
    rw [parts_eq_of_readOff hsole hjson (r := .oneOf _) h, ← blame_eq]
    exact mem_enumParts_iff.mpr ⟨hv ▸ hn, rfl⟩
  | elements h hn =>
    rw [parts_eq_of_readOff hsole hjson (r := .elements _) h, ← blame_eq]
    exact mem_elementParts_iff.mpr (.inr ⟨hv ▸ hn, rfl⟩)
  | properties h hn =>
    rw [parts_eq_propertyParts hsole hjson (.inl ⟨_, h⟩), ← blame_eq]
    exact mem_propertyParts_iff.mpr (.inr ⟨hv ▸ hn, by simp [h]⟩)
  | optionalProperties h ho hn =>
    rw [parts_eq_propertyParts hsole hjson (.inr ⟨_, ho⟩), ← blame_eq]
    exact mem_propertyParts_iff.mpr (.inr ⟨hv ▸ hn, by simp [h]⟩)
  | missing h hname =>
    obtain ⟨map, hmap, -⟩ := mem_entries.mp h
    rw [parts_eq_propertyParts hsole hjson (.inl ⟨map, hmap⟩), ← blame_eq]
    refine mem_propertyParts_iff.mpr (.inl ⟨_, hv, List.mem_append_left _ ?_⟩)
    exact mem_requiredPart_iff.mpr (.inr ⟨_, _, h, hname, rfl⟩)
  | undeclared h hstrict hx hrequired hoptional htag =>
    rw [parts_eq_propertyParts hsole hjson h, ← blameMember_eq]
    refine mem_propertyParts_iff.mpr
      (.inl ⟨_, hv, List.mem_append_right _ (List.mem_append_right _ ?_)⟩)
    refine mem_undeclaredParts_iff.mpr ⟨hstrict, _, List.mem_map_of_mem hx, htag, ?_, rfl⟩
    rw [List.map_append, List.mem_append, not_or]
    exact ⟨hrequired, hoptional⟩
  | values h hn =>
    rw [parts_eq_of_readOff hsole hjson (r := .values _) h, ← blame_eq]
    exact mem_valueParts_iff.mpr (.inr ⟨hv ▸ hn, rfl⟩)
  | discriminator h hn =>
    rw [parts_eq_of_readOff hsole hjson (r := .tagged _ _) h, ← blame_eq]
    exact mem_unionParts_iff.mpr (.inr ⟨hv ▸ hn, rfl⟩)
  | noTag h hkey =>
    rw [parts_eq_of_readOff hsole hjson (r := .tagged _ _) h, ← blame_eq]
    refine mem_unionParts_iff.mpr (.inl ⟨_, hv, (mem_tagParts_iff (hv ▸ hjson)).mpr ?_⟩)
    exact .inl ⟨hkey, rfl⟩
  | tagKind h hx htext =>
    rw [parts_eq_of_readOff hsole hjson (r := .tagged _ _) h, ← blameMember_eq]
    refine mem_unionParts_iff.mpr (.inl ⟨_, hv, (mem_tagParts_iff (hv ▸ hjson)).mpr ?_⟩)
    exact .inr (.inl ⟨_, hx, htext, rfl⟩)
  | mapping h hx htext =>
    rw [parts_eq_of_readOff hsole hjson (r := .tagged _ _) h, ← blameMember_eq]
    refine mem_unionParts_iff.mpr (.inl ⟨_, hv, (mem_tagParts_iff (hv ▸ hjson)).mpr ?_⟩)
    exact .inr (.inr (.inl ⟨_, hx, htext, rfl⟩))

/-- **What a step under a correct node does**, part by part. -/
theorem mem_parts_iff (hc : f.schema.Correct (keys root.definitions)) (hjson : f.value.isJson) :
    p ∈ f.parts config root ↔ f.Does config root p := by
  constructor
  · exact does_of_mem_parts hc hjson
  · intro h
    cases h with
    | enters h => exact mem_parts_of_enters hc.sole hjson h
    | rejects h => exact mem_parts_of_rejects hc.sole hjson rfl h
    | tooDeep h hdepth =>
      obtain ⟨target, htarget⟩ := exists_lookup_of_mem_keys (hc.ref _ h)
      rw [parts_eq_of_readOff hc.sole hjson (r := .definition _) h]
      exact (mem_refParts_iff htarget).mpr (.inl ⟨hdepth, rfl⟩)

end Frame

end SchemaForms
