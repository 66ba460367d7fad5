import SchemaForms.Proofs.Validation.Conforms
import SchemaForms.Proofs.Value.Respelled

/-!
# Numbers judged by their exact value

A step only asks scalar types about a number, so a walk of a document whose numbers are exchanged
for others of the same types does what it did before (`Frame.walk_mapNumbers`). So how a number is
written is of no account, and a document is judged by the exact values of its numbers
(`judged_by_exact_value`).
-/

namespace SchemaForms

variable {e : Number → Number} {config : Config} {root : Schema} {stack : Nat}

/-- The frame with every number exchanged. -/
def Frame.mapNumbers (e : Number → Number) (f : Frame) : Frame :=
  { f with around := f.around.map (Value.mapNumbers e), value := f.value.mapNumbers e }

/-- The part with every number exchanged. -/
def Part.mapNumbers (e : Number → Number) : Part → Part
  | visit f => visit (f.mapNumbers e)
  | p => p

namespace Frame

variable {f : Frame}

@[simp] theorem value_mapNumbers (f : Frame) :
    (f.mapNumbers e).value = f.value.mapNumbers e := rfl

theorem resolved_mapNumbers (f : Frame) : (f.mapNumbers e).resolved = f.resolved.mapNumbers e := by
  simp only [resolved, mapNumbers, Value.resolve_mapNumbers]

theorem onJson_mapNumbers {parts parts' : List Part} (h : parts' = parts.map (Part.mapNumbers e)) :
    (f.mapNumbers e).onJson parts' = (f.onJson parts).map (Part.mapNumbers e) := by
  simp only [onJson, mapNumbers, Value.kindOf_mapNumbers]
  cases f.value.kindOf with
  | error leaf => rfl
  | ok _ => exact h

theorem refParts_mapNumbers (name : String) :
    (f.mapNumbers e).refParts config root name =
      (f.refParts config root name).map (Part.mapNumbers e) := by
  by_cases hdepth : config.maxDepth = f.location.depth
  · simp [refParts, mapNumbers, hdepth, Part.mapNumbers]
  · simp only [refParts, mapNumbers, hdepth, if_false]
    cases root.definitions with
    | none => rfl
    | some definitions =>
      simp only
      cases definitions.lookup name with
      | none => rfl
      | some target => rfl

theorem scalarParts_mapNumbers (he : Unnoticed e) (typeName : String) :
    (f.mapNumbers e).scalarParts typeName =
      (f.scalarParts typeName).map (Part.mapNumbers e) := by
  simp only [scalarParts, mapNumbers, Value.admits_mapNumbers he]
  cases ScalarType.ofName? typeName with
  | none => rfl
  | some t =>
    simp only
    split_ifs <;> rfl

theorem enumParts_mapNumbers (texts : List String) :
    (f.mapNumbers e).enumParts texts = (f.enumParts texts).map (Part.mapNumbers e) := by
  unfold enumParts
  cases hv : f.value with
  | string text =>
    simp only [mapNumbers, hv, Value.mapNumbers]
    split_ifs <;> rfl
  | array items => simp only [mapNumbers, hv, Value.mapNumbers_array]; rfl
  | object members => simp only [mapNumbers, hv, Value.mapNumbers_object]; rfl
  | _ => simp only [mapNumbers, hv, Value.mapNumbers]; rfl

theorem elementParts_mapNumbers (item : Schema) :
    (f.mapNumbers e).elementParts item = (f.elementParts item).map (Part.mapNumbers e) := by
  by_cases hv : ∃ items, f.value = .array items
  · obtain ⟨items, hv⟩ := hv
    simp only [elementParts, mapNumbers, hv, Value.mapNumbers_array]
    refine List.ext_getElem (by simp) fun i hi hi' => ?_
    simp only [List.getElem_mapIdx, List.getElem_map, Part.mapNumbers, enter, mapNumbers, hv,
      List.map_cons, Value.mapNumbers_array]
  · have hne : ∀ items, f.value ≠ .array items := not_exists.mp hv
    rw [elementParts_of_ne hne, elementParts_of_ne (Value.mapNumbers_ne_array hne)]
    rfl

theorem memberParts_mapNumbers (required optional : List (String × Schema))
    (members : List (String × Value)) :
    (f.mapNumbers e).memberParts config required optional
        (members.map fun entry => (entry.1, entry.2.mapNumbers e)) =
      (f.memberParts config required optional members).map (Part.mapNumbers e) := by
  rw [memberParts, memberParts, List.map_append (f := Part.mapNumbers e),
    List.map_append (f := Part.mapNumbers e)]
  congr 1
  · rw [List.map_map]
    refine List.map_congr_left fun entry _ => ?_
    simp only [requiredPart, lookup_map_snd, Function.comp]
    cases members.lookup entry.1 with
    | none => rfl
    | some x => rfl
  congr 1
  · rw [List.map_filterMap]
    refine List.filterMap_congr fun entry _ => ?_
    simp only [optionalPart, lookup_map_snd]
    cases members.lookup entry.1 with
    | none => rfl
    | some x => rfl
  · simp only [undeclaredParts, mapNumbers]
    split_ifs
    · rw [List.filter_map, List.map_map, List.map_map]
      rfl
    · rfl

theorem propertyParts_mapNumbers (required optional : Option (List (String × Schema))) :
    (f.mapNumbers e).propertyParts config required optional =
      (f.propertyParts config required optional).map (Part.mapNumbers e) := by
  by_cases hv : ∃ members, f.value = .object members
  · obtain ⟨members, hv⟩ := hv
    simp only [propertyParts, value_mapNumbers, hv, Value.mapNumbers_object]
    exact memberParts_mapNumbers _ _ _
  · have hne : ∀ members, f.value ≠ .object members := not_exists.mp hv
    rw [propertyParts_of_ne hne, propertyParts_of_ne (Value.mapNumbers_ne_object hne)]
    rfl

theorem valueParts_mapNumbers (member : Schema) :
    (f.mapNumbers e).valueParts member = (f.valueParts member).map (Part.mapNumbers e) := by
  by_cases hv : ∃ members, f.value = .object members
  · obtain ⟨members, hv⟩ := hv
    simp only [valueParts, mapNumbers, hv, Value.mapNumbers_object, List.map_map]
    refine List.map_congr_left fun entry _ => ?_
    simp only [Function.comp, Part.mapNumbers, enter, mapNumbers, hv, List.map_cons,
      Value.mapNumbers_object]
  · have hne : ∀ members, f.value ≠ .object members := not_exists.mp hv
    rw [valueParts_of_ne hne, valueParts_of_ne (Value.mapNumbers_ne_object hne)]
    rfl

theorem tagParts_mapNumbers (tag : String) (mapping : List (String × Schema))
    (members : List (String × Value)) :
    (f.mapNumbers e).tagParts tag mapping
        (members.map fun entry => (entry.1, entry.2.mapNumbers e)) =
      (f.tagParts tag mapping members).map (Part.mapNumbers e) := by
  simp only [tagParts, lookup_map_snd]
  cases members.lookup tag with
  | none => rfl
  | some x =>
    simp only [Option.map_some, Value.kindOf_mapNumbers]
    cases x.kindOf with
    | error leaf => rfl
    | ok kind =>
      cases x with
      | string text =>
        simp only [Value.mapNumbers]
        cases mapping.lookup text with
        | none => rfl
        | some target => rfl
      | array items => simp only [Value.mapNumbers_array]; rfl
      | object members => simp only [Value.mapNumbers_object]; rfl
      | _ => rfl

theorem unionParts_mapNumbers (tag : String) (mapping : List (String × Schema)) :
    (f.mapNumbers e).unionParts tag mapping =
      (f.unionParts tag mapping).map (Part.mapNumbers e) := by
  by_cases hv : ∃ members, f.value = .object members
  · obtain ⟨members, hv⟩ := hv
    simp only [unionParts, value_mapNumbers, hv, Value.mapNumbers_object]
    exact tagParts_mapNumbers _ _ _
  · have hne : ∀ members, f.value ≠ .object members := not_exists.mp hv
    rw [unionParts_of_ne hne, unionParts_of_ne (Value.mapNumbers_ne_object hne)]
    rfl

/-- A step does the same with numbers exchanged. -/
theorem parts_mapNumbers (he : Unnoticed e) (f : Frame) :
    (f.mapNumbers e).parts config root = (f.parts config root).map (Part.mapNumbers e) := by
  rw [parts, parts, resolved_mapNumbers, partsHere, partsHere]
  simp only [show (f.resolved.mapNumbers e).schema = f.resolved.schema from rfl]
  cases f.resolved.schema.rule with
  | anything => rfl
  | definition name => exact refParts_mapNumbers name
  | scalar typeName => exact onJson_mapNumbers (scalarParts_mapNumbers he typeName)
  | oneOf texts => exact onJson_mapNumbers (enumParts_mapNumbers texts)
  | elements item => exact onJson_mapNumbers (elementParts_mapNumbers item)
  | properties required optional => exact onJson_mapNumbers (propertyParts_mapNumbers _ _)
  | values member => exact onJson_mapNumbers (valueParts_mapNumbers member)
  | tagged tag mapping => exact onJson_mapNumbers (unionParts_mapNumbers tag mapping)

/-! ## Whole walks -/

/-- A walk does the same with numbers exchanged. -/
theorem walk_mapNumbers (he : Unnoticed e) (f : Frame) :
    (f.mapNumbers e).walk config root stack = f.walk config root stack := by
  induction stack generalizing f with
  | zero => rw [walk_zero, walk_zero]
  | succ stack ih =>
    rw [walk_succ, walk_succ, parts_mapNumbers he, walkParts, walkParts, List.map_map]
    congr 1
    refine List.map_congr_left fun p _ => ?_
    cases p with
    | visit g => exact ih g
    | _ => rfl

end Frame

/-- Where a document has a truth value in the place of a number, no report is valid. -/
theorem isValid_eq_false_of_bool {document : Value} {report : Report} {f : Frame} {t : ScalarType}
    {b : Bool} (hcheck : root.check = .ok ()) (hjson : document.isJson)
    (hvisits : Frame.Visits config root (Frame.start root document) f)
    (htype : f.schema.type = some t.name) (ht : t.width?.isSome ∨ t.isFloating)
    (hv : f.value = .bool b)
    (h : (trace stack config root document).outcome config = .ok report) :
    report.isValid = false := by
  refine Bool.eq_false_iff.mpr fun hvalid => ?_
  have hstart := Frame.regular_start root hjson
  have hclean := Frame.trace_eq_clean_of_isValid hcheck hjson h hvalid
  have hconforming := (hstart.conforming_of_clean hcheck hclean).of_visits hcheck hstart hvisits
  have hsole := ((hstart.of_visits hcheck hvisits).correct hcheck).sole
  exact hconforming.not_rejects hsole (.type htype rfl (hv ▸ t.not_holds_bool ht b))

/-- **Numbers are judged by their exact value.** A sized integer type admits the numbers whose exact
value is whole and fits in its bits. Documents that differ in how numbers are written have the same
trace, whatever the stack, so their runs have the same outcome. A truth value is of no numeric type,
and no report is valid that met one in the place of a number. -/
theorem judged_by_exact_value :
    (∀ (t : ScalarType) (signed : Bool) (bits : Nat), t.width? = some (signed, bits) →
      ∀ n : Number, t.admits (.number n) = true ↔
        ∃ k : Int, n.value? = some (k : ℚ) ∧ ScalarType.Fits signed bits k) ∧
    (∀ (stack : Nat) (config : Config) (root : Schema) (v w : Value), v.Respelled w →
      trace stack config root v = trace stack config root w) ∧
    ∀ t : ScalarType, t.width?.isSome ∨ t.isFloating →
      (∀ b, t.admits (.bool b) = false) ∧
      ∀ (stack : Nat) (config : Config) (root : Schema) (document : Value) (f : Frame) (b : Bool)
        (report : Report), root.check = .ok () → document.isJson →
        Frame.Visits config root (Frame.start root document) f →
        f.schema.type = some t.name → f.value = .bool b →
        (trace stack config root document).outcome config = .ok report →
        report.isValid = false := by
  refine ⟨fun t signed bits h n => ScalarType.admits_number_iff h n, ?_, fun t ht => ⟨?_, ?_⟩⟩
  · intro stack config root v w hvw
    rw [Frame.trace_eq_walk, Frame.trace_eq_walk, ← Frame.walk_mapNumbers Number.seen_unnoticed,
      ← Frame.walk_mapNumbers Number.seen_unnoticed (Frame.start root w)]
    simp only [Frame.mapNumbers, Frame.start, hvw.mapNumbers_seen]
  · intro b
    rw [← Bool.not_eq_true, t.admits_iff_holds]
    exact t.not_holds_bool ht b
  · intro stack config root document f b report hcheck hjson hvisits htype hv h
    exact isValid_eq_false_of_bool hcheck hjson hvisits htype ht hv h

/-- A list of one number, written as the double 1.0 instead of the integer 1, and the same with a
truth value in its place. -/
theorem linkedList_respelled :
    let one : Number := .double (.finite false ⟨1023 * 2 ^ 52, by decide⟩)
    let list (v : Value) : Value := .object [("item", v)]
    one.value? = some 1 ∧ ScalarType.int8.admits (.number one) = true ∧
      trace 9 ⟨0, 0, true⟩ Schema.linkedList (list (.number one)) =
        trace 9 ⟨0, 0, true⟩ Schema.linkedList (list (.int 1)) ∧
      ∃ report, (trace 9 ⟨0, 0, true⟩ Schema.linkedList (list (.bool true))).outcome ⟨0, 0, true⟩ =
        .ok report ∧ report.isValid = false := by
  intro one list
  obtain ⟨hadmits, htraces, hbool⟩ := judged_by_exact_value
  have hone : one.value? = some 1 := by
    norm_num [one, Number.value?, Number.Double.value?, Number.Double.magnitude]
  have hspelled : (Value.number one).Respelled (.int 1) := .number hone rfl
  refine ⟨hone, ?_, ?_, _, rfl, ?_⟩
  · exact (hadmits .int8 true 8 rfl one).mpr ⟨1, by rw [hone, Int.cast_one], by decide, by decide⟩
  · refine htraces 9 _ _ _ _ (.object rfl fun i key x y hx hy => ?_)
    cases i with
    | zero =>
      cases hx
      cases hy
      exact hspelled
    | succ i => cases hx
  · let node : Schema := { properties := some [("item", { type := some "int8" })]
                           optionalProperties := some [("next", { ref := some "node" })] }
    let f := (Frame.start Schema.linkedList (list (.bool true))).follow "node" node
    let g := f.enter "item" ["properties", "item"] { type := some "int8" } (.bool true)
    have hvisits : Frame.Visits ⟨0, 0, true⟩ Schema.linkedList (.start Schema.linkedList
        (list (.bool true))) g :=
      .tail (.single (show Part.visit f ∈ _ from .head _)) (show Part.visit g ∈ _ from .head _)
    exact (hbool .int8 (.inl rfl)).2 9 ⟨0, 0, true⟩ Schema.linkedList (list (.bool true)) g true _
      rfl rfl hvisits rfl rfl rfl

end SchemaForms
