import SchemaForms.Proofs.Schema.Path
import SchemaForms.Proofs.Validation.Visits

/-!
# Where violations are

At every frame of a walk the path into the document reaches the value of the frame, and the path
into the schema leads to its node (`Placed.of_visits`): a step goes on by exactly the tokens that
it adds to the paths, and behind a reference the second path starts anew at the definition. A
violation is recorded where a node rejects a value by itself, so its paths reach what is rejected
and the keyword that rejects it (`located_of_mem_violations`).
-/

namespace SchemaForms

variable {config : Config} {root : Schema} {document : Value} {f g : Frame}

/-! ## What a node rejects -/

namespace Rejects

variable {strict : Bool} {tag : Option String} {s : Schema} {value blamed : Value}
  {place keywords : List String}

theorem reaches_blamed (h : Rejects strict tag s value place blamed keywords) :
    value.Reaches place blamed := by
  cases h with
  | undeclared _ _ hx _ _ _ => exact .member_of_mem hx
  | tagKind _ hx _ => exact .member_of_mem (mem_of_lookup hx)
  | mapping _ hx _ => exact .member_of_mem (mem_of_lookup hx)
  | _ => exact .here

theorem exists_reaches_keywords (h : Rejects strict tag s value place blamed keywords) :
    ∃ w, s.toValue.Reaches keywords w := by
  cases h with
  | @type _ t _ h hname _ =>
    exact ⟨_, (Schema.Writes.type h (hname ▸ t.name_ne_empty)).reaches .here⟩
  | enum h _ => exact ⟨_, (Schema.Writes.enum h).reaches .here⟩
  | elements h _ => exact ⟨_, (Schema.Writes.elements h).reaches .here⟩
  | properties h _ => exact ⟨_, (Schema.Writes.properties h).reaches .here⟩
  | optionalProperties _ h _ => exact ⟨_, (Schema.Writes.optionalProperties h).reaches .here⟩
  | missing h _ =>
    obtain ⟨map, hmap, hsub⟩ := mem_entries.mp h
    exact ⟨_, (Schema.Writes.properties hmap).reaches (Schema.reaches_of_mem_map hsub)⟩
  | undeclared _ _ _ _ _ _ => exact ⟨_, .here⟩
  | values h _ => exact ⟨_, (Schema.Writes.values h).reaches .here⟩
  | discriminator h _ => exact ⟨_, (Schema.Writes.discriminator h).reaches .here⟩
  | noTag h _ => exact ⟨_, Schema.reaches_tag h⟩
  | tagKind h _ _ => exact ⟨_, Schema.reaches_tag h⟩
  | mapping h _ _ => exact ⟨_, Schema.reaches_mapping h⟩

end Rejects

namespace Frame

/-! ## Where a walk stands -/

/-- The paths of the frame belong to its value and to its node. -/
structure Placed (root : Schema) (document : Value) (f : Frame) : Prop where
  value : document.Reaches f.location.instancePath f.value
  schema : root.Leads f.location.schemaPath f.tag f.schema

theorem placed_start : Placed root document (start root document) :=
  ⟨.here, .root⟩

theorem Placed.of_enters (h : Placed root document f) (henters : f.Enters config root g) :
    Placed root document g := by
  obtain ⟨hv, hs⟩ := h
  cases henters with
  | definition _ htarget _ => exact ⟨hv, .definition (mem_of_lookup htarget)⟩
  | item h hvalue hx =>
    rw [hvalue] at hv
    exact ⟨hv.append (.item_of_getElem? hx), hs.elements h⟩
  | required h hvalue hx =>
    rw [hvalue] at hv
    exact ⟨hv.append (.member_of_mem (mem_of_lookup hx)), hs.properties h⟩
  | optional h hvalue hx =>
    rw [hvalue] at hv
    exact ⟨hv.append (.member_of_mem (mem_of_lookup hx)), hs.optionalProperties h⟩
  | member h hvalue hx =>
    rw [hvalue] at hv
    exact ⟨hv.append (.member_of_mem hx), hs.values h⟩
  | tagged h _ _ htarget => exact ⟨hv, hs.mapping h (mem_of_lookup htarget)⟩

theorem Placed.of_visits (hcheck : root.check = .ok ()) (hf : Regular root f)
    (h : Placed root document f) (hvisits : Visits config root f g) : Placed root document g := by
  induction hvisits with
  | refl => exact h
  | tail hvisits hgoes ih =>
    exact ih.of_enters ((hf.of_visits hcheck hvisits).enters_of_goes hcheck hgoes)

end Frame

/-! ## Violations -/

/-- **Every violation of a report is located and genuine.** Its path into the document reaches the
blamed value, by way of the value that a node was to judge; its path into the schema reaches a
member of the document that describes the root, by way of that node; and the node rejects the value
by itself, with blame on just this place and this keyword. -/
theorem located_of_mem_violations (stack : Nat) (config : Config) (root : Schema) (document : Value)
    (report : Report) (hcheck : root.check = .ok ()) (hjson : document.isJson)
    (h : (trace stack config root document).outcome config = .ok report) {violation : Violation}
    (hmem : violation ∈ report.violations) :
    ∃ outer value place blamed path tag node keywords,
      violation = ⟨outer ++ place, path ++ keywords⟩ ∧
      document.Reaches outer value ∧ document.Reaches violation.instancePath blamed ∧
      root.Leads path tag node ∧
      (∃ member, root.toValue.Reaches violation.schemaPath member) ∧
      Rejects config.strict tag node value place blamed keywords := by
  have hstart := Frame.regular_start root hjson
  obtain ⟨_, rfl⟩ := Trace.outcome_eq_ok_iff.mp h
  rw [Frame.trace_eq_walk] at hmem
  obtain ⟨f, hvisits, hreport⟩ := Frame.exists_visit_of_mem_violations hmem
  have hf := hstart.of_visits hcheck hvisits
  obtain ⟨hvalue, hschema⟩ := Frame.placed_start.of_visits hcheck hstart hvisits
  cases (hf.mem_parts_iff hcheck).mp hreport with
  | @rejects place keywords blamed hrejects =>
    obtain ⟨member, hmember⟩ := hrejects.exists_reaches_keywords
    exact ⟨_, _, place, blamed, _, _, _, keywords, rfl, hvalue,
      hvalue.append hrejects.reaches_blamed, hschema, ⟨member, hschema.reaches.append hmember⟩,
      hrejects⟩

theorem linkedList_located :
    (∃ blamed, (Value.object [("item", .int 300)]).Reaches ["item"] blamed) ∧
      ∃ member, Schema.linkedList.toValue.Reaches
        ["definitions", "node", "properties", "item", "type"] member := by
  obtain ⟨_, _, _, blamed, _, _, _, _, _, _, hblamed, _, hmember, _⟩ :=
    located_of_mem_violations 10 ⟨1, 5, true⟩ Schema.linkedList (.object [("item", .int 300)])
      ⟨[⟨["item"], ["definitions", "node", "properties", "item", "type"]⟩]⟩ rfl rfl rfl
      List.mem_cons_self
  exact ⟨⟨blamed, hblamed⟩, hmember⟩

end SchemaForms
