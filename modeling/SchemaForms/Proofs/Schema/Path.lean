import SchemaForms.Proofs.Schema.Groups
import SchemaForms.Schema.Wire

/-!
# Paths

`Value.Reaches` follows a path through a document, by the place of an item and by the key of a
member. `Schema.Leads` follows a path through a root node by node: a keyword and, under a keyword
that holds a map, a name of the map, whichever name that is. Where a path leads to a node it
reaches, in the document that describes the root, the document that describes the node
(`Leads.reaches`).
-/

namespace SchemaForms

/-- The path leads from the first value to the second. -/
inductive Value.Reaches : Value → List String → Value → Prop
  | here {v : Value} : Reaches v [] v
  | item {items : List Value} {i : Nat} {x v : Value} {path : List String}
      (hx : items[i]? = some x) (h : Reaches x path v) :
      Reaches (.array items) (toString i :: path) v
  | member {members : List (String × Value)} {key : String} {x v : Value} {path : List String}
      (hx : (key, x) ∈ members) (h : Reaches x path v) : Reaches (.object members) (key :: path) v

namespace Value.Reaches

variable {u v w : Value} {path rest : List String}

theorem append (h : Reaches u path v) (h' : Reaches v rest w) : Reaches u (path ++ rest) w := by
  induction h with
  | here => exact h'
  | item hx _ ih => exact .item hx (ih h')
  | member hx _ ih => exact .member hx (ih h')

theorem item_of_getElem? {items : List Value} {i : Nat} (hx : items[i]? = some v) :
    Reaches (.array items) [toString i] v :=
  .item hx .here

theorem member_of_mem {members : List (String × Value)} {key : String} (hx : (key, v) ∈ members) :
    Reaches (.object members) [key] v :=
  .member hx .here

end Value.Reaches

namespace Schema

variable {root s t : Schema} {path rest : List String} {key : String} {w : Value}

/-- The document that describes the node has this member. -/
inductive Writes (s : Schema) : String → Value → Prop
  | definitions {map : List (String × Schema)} (h : s.definitions = some map) :
      Writes s "definitions" (.object (mapToMembers map))
  | type {typeName : String} (h : s.type = some typeName) (hne : typeName ≠ "") :
      Writes s "type" (.string typeName)
  | enum {texts : List String} (h : s.enum = some texts) :
      Writes s "enum" (.array (texts.map .string))
  | elements {item : Schema} (h : s.elements = some item) : Writes s "elements" item.toValue
  | properties {map : List (String × Schema)} (h : s.properties = some map) :
      Writes s "properties" (.object (mapToMembers map))
  | optionalProperties {map : List (String × Schema)} (h : s.optionalProperties = some map) :
      Writes s "optionalProperties" (.object (mapToMembers map))
  | values {member : Schema} (h : s.values = some member) : Writes s "values" member.toValue
  | discriminator {tag : String} {mapping : List (String × Schema)}
      (h : s.discriminator = some ⟨tag, some mapping⟩) :
      Writes s "discriminator"
        (.object [("tag", .string tag), ("mapping", .object (mapToMembers mapping))])

/-- The members of the document that describes a node. -/
theorem toValue_eq (s : Schema) :
    s.toValue = .object (
      member? "definitions" (s.definitions.map fun map => .object (mapToMembers map)) ++
      member? "ref" (s.ref.map .string) ++
      member? "type" ((s.type.filter (· ≠ "")).map .string) ++
      member? "enum" (s.enum.map fun texts => .array (texts.map .string)) ++
      member? "elements" (s.elements.map toValue) ++
      member? "properties" (s.properties.map fun map => .object (mapToMembers map)) ++
      member? "optionalProperties"
        (s.optionalProperties.map fun map => .object (mapToMembers map)) ++
      member? "values" (s.values.map toValue) ++
      member? "discriminator" (s.discriminator.map fun d => .object
        (("tag", .string d.tag) ::
          member? "mapping" (d.mapping.map fun map => .object (mapToMembers map))))) := by
  obtain ⟨definitions, ref, type, enum, elements, properties, optionalProperties, values,
    discriminator⟩ := s
  rcases discriminator with _ | ⟨tag, _ | mapping⟩ <;>
    cases definitions <;> cases elements <;> cases properties <;> cases optionalProperties <;>
      cases values <;> rfl

theorem Writes.exists_mem (h : s.Writes key w) :
    ∃ members, s.toValue = .object members ∧ (key, w) ∈ members := by
  refine ⟨_, s.toValue_eq, ?_⟩
  cases h with
  | type h hne => simp [h, member?, hne]
  | _ h => simp [h, member?]

theorem Writes.reaches (h : s.Writes key w) {v : Value} (hv : w.Reaches path v) :
    s.toValue.Reaches (key :: path) v := by
  obtain ⟨members, hmembers, hmem⟩ := h.exists_mem
  rw [hmembers]
  exact .member hmem hv

theorem mem_mapToMembers {map : List (String × Schema)} {name : String} (h : (name, t) ∈ map) :
    (name, t.toValue) ∈ mapToMembers map := by
  induction map with
  | nil => cases h
  | cons entry rest ih =>
    obtain ⟨key, u⟩ := entry
    rw [mapToMembers]
    rcases List.mem_cons.mp h with heq | hrest
    · cases heq
      exact List.mem_cons_self
    · exact List.mem_cons_of_mem _ (ih hrest)

theorem reaches_of_mem_map {map : List (String × Schema)} {name : String} (h : (name, t) ∈ map) :
    (Value.object (mapToMembers map)).Reaches [name] t.toValue :=
  .member_of_mem (mem_mapToMembers h)

theorem reaches_tag {tag : String} {mapping : List (String × Schema)}
    (h : s.discriminator = some ⟨tag, some mapping⟩) :
    s.toValue.Reaches ["discriminator", "tag"] (.string tag) :=
  (Writes.discriminator h).reaches (.member_of_mem List.mem_cons_self)

theorem reaches_mapping {tag : String} {mapping : List (String × Schema)}
    (h : s.discriminator = some ⟨tag, some mapping⟩) :
    s.toValue.Reaches ["discriminator", "mapping"] (.object (mapToMembers mapping)) :=
  (Writes.discriminator h).reaches
    (.member_of_mem (List.mem_cons_of_mem _ List.mem_cons_self))

/-- The path leads from the root to the node, which is the choice of a tagged union if there is a
tag. -/
inductive Leads (root : Schema) : List String → Option String → Schema → Prop
  | root : Leads root [] none root
  | definition {name : String} {s : Schema} (h : (name, s) ∈ entries root.definitions) :
      Leads root ["definitions", name] none s
  | elements {path : List String} {tag : Option String} {s item : Schema}
      (hs : Leads root path tag s) (h : s.elements = some item) : Leads root (path ++ ["elements"]) none item
  | properties {path : List String} {tag : Option String} {s t : Schema} {name : String}
      (hs : Leads root path tag s) (h : (name, t) ∈ entries s.properties) :
      Leads root (path ++ ["properties", name]) none t
  | optionalProperties {path : List String} {tag : Option String} {s t : Schema} {name : String}
      (hs : Leads root path tag s) (h : (name, t) ∈ entries s.optionalProperties) :
      Leads root (path ++ ["optionalProperties", name]) none t
  | values {path : List String} {tag : Option String} {s member : Schema}
      (hs : Leads root path tag s) (h : s.values = some member) : Leads root (path ++ ["values"]) none member
  | mapping {path : List String} {tag : Option String} {s t : Schema} {unionTag text : String}
      {mapping : List (String × Schema)} (hs : Leads root path tag s)
      (h : s.discriminator = some ⟨unionTag, some mapping⟩) (ht : (text, t) ∈ mapping) :
      Leads root (path ++ ["discriminator", "mapping", text]) (some unionTag) t

/-- A path that leads to a node reaches the document of the node. -/
theorem Leads.reaches {tag : Option String} (h : root.Leads path tag s) :
    root.toValue.Reaches path s.toValue := by
  induction h with
  | root => exact .here
  | definition h =>
    obtain ⟨map, hmap, hs⟩ := mem_entries.mp h
    exact (Writes.definitions hmap).reaches (reaches_of_mem_map hs)
  | elements _ h ih => exact ih.append ((Writes.elements h).reaches .here)
  | properties _ h ih =>
    obtain ⟨map, hmap, ht⟩ := mem_entries.mp h
    exact ih.append ((Writes.properties hmap).reaches (reaches_of_mem_map ht))
  | optionalProperties _ h ih =>
    obtain ⟨map, hmap, ht⟩ := mem_entries.mp h
    exact ih.append ((Writes.optionalProperties hmap).reaches (reaches_of_mem_map ht))
  | values _ h ih => exact ih.append ((Writes.values h).reaches .here)
  | mapping _ h ht ih => exact ih.append ((reaches_mapping h).append (reaches_of_mem_map ht))

end Schema

end SchemaForms
