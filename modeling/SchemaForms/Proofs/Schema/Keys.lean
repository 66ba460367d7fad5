import SchemaForms.Proofs.Schema.Tree
import SchemaForms.Proofs.Value.Keys
import SchemaForms.Schema.Shape

/-!
# Schemas with distinct keys

The maps of a schema are lists of entries. `Schema.distinctKeys` says that no map of a schema has a
key twice, at any depth; it is so for every node below, and for every definition. A document with
distinct keys is decoded to such a schema (`distinctKeys_of_decode`).
-/

namespace SchemaForms.Schema

open Value (allMembersDistinctKeys)

mutual
/-- Whether the keys are distinct in every map of the schema. -/
def distinctKeys : Schema → Bool
  | ⟨definitions, _, _, _, elements, properties, optionalProperties, values, discriminator⟩ =>
    distinctKeysOfMap definitions && distinctKeysOfNode elements &&
      distinctKeysOfMap properties && distinctKeysOfMap optionalProperties &&
      distinctKeysOfNode values && distinctKeysOfUnion discriminator

/-- Whether the keys are distinct in every map of a node that may be absent. -/
def distinctKeysOfNode : Option Schema → Bool
  | none => true
  | some s => distinctKeys s

/-- Whether the keys are distinct in a map that may be absent, and in every map below. -/
def distinctKeysOfMap : Option (List (String × Schema)) → Bool
  | none => true
  | some map => decide (map.map (·.1)).Nodup && distinctKeysOfEntries map

/-- Whether the keys are distinct in the mapping of a tagged union, and in every map below. -/
def distinctKeysOfUnion : Option (Discriminator Schema) → Bool
  | none => true
  | some ⟨_, mapping⟩ => distinctKeysOfMap mapping

/-- Whether the keys are distinct in every map of the schemas of some entries. -/
def distinctKeysOfEntries : List (String × Schema) → Bool
  | [] => true
  | (_, s) :: rest => distinctKeys s && distinctKeysOfEntries rest
end

variable {root s t : Schema}

theorem distinctKeys_iff :
    s.distinctKeys = true ↔ distinctKeysOfMap s.definitions = true ∧
      distinctKeysOfNode s.elements = true ∧ distinctKeysOfMap s.properties = true ∧
      distinctKeysOfMap s.optionalProperties = true ∧ distinctKeysOfNode s.values = true ∧
      distinctKeysOfUnion s.discriminator = true := by
  cases s
  simp only [distinctKeys, Bool.and_eq_true, and_assoc]

theorem distinctKeysOfEntries_iff {map : List (String × Schema)} :
    distinctKeysOfEntries map = true ↔ ∀ entry ∈ map, entry.2.distinctKeys = true := by
  induction map with
  | nil => simp [distinctKeysOfEntries]
  | cons entry rest ih => rw [distinctKeysOfEntries, Bool.and_eq_true, ih, List.forall_mem_cons]

theorem distinctKeysOfMap_iff {map : Option (List (String × Schema))} :
    distinctKeysOfMap map = true ↔
      (keys map).Nodup ∧ ∀ entry ∈ entries map, entry.2.distinctKeys = true := by
  cases map with
  | none => simp [distinctKeysOfMap, keys, entries]
  | some map =>
    rw [distinctKeysOfMap, Bool.and_eq_true, decide_eq_true_eq, distinctKeysOfEntries_iff]
    rfl

/-- A map that has distinct keys, and below which all maps have. -/
theorem distinctKeysOfMap_some {map : List (String × Schema)}
    (h : distinctKeysOfMap (some map) = true) :
    (map.map (·.1)).Nodup ∧ ∀ entry ∈ map, entry.2.distinctKeys = true :=
  distinctKeysOfMap_iff.mp h

theorem Child.distinctKeys (h : Child s t) (hs : s.distinctKeys) : t.distinctKeys = true := by
  obtain ⟨-, helements, hproperties, hoptional, hvalues, hunion⟩ := distinctKeys_iff.mp hs
  cases h with
  | elements h => rwa [h] at helements
  | required h ht =>
    rw [h] at hproperties
    exact (distinctKeysOfMap_some hproperties).2 _ ht
  | optional h ht =>
    rw [h] at hoptional
    exact (distinctKeysOfMap_some hoptional).2 _ ht
  | values h => rwa [h] at hvalues
  | tagged h ht =>
    rw [h] at hunion
    exact (distinctKeysOfMap_some hunion).2 _ ht

theorem CheckedNode.distinctKeys (h : CheckedNode root s) (hroot : root.distinctKeys) :
    s.distinctKeys = true := by
  induction h with
  | root => exact hroot
  | definition h => exact (distinctKeysOfMap_iff.mp (distinctKeys_iff.mp hroot).1).2 _ h
  | child _ hchild ih => exact hchild.distinctKeys ih

/-! ## Decoded schemas -/

theorem keys_mapOfMembers (members : List (String × Value)) :
    (mapOfMembers members).map (·.1) = members.map (·.1) := by
  induction members with
  | nil => simp [mapOfMembers]
  | cons entry rest ih => simp [mapOfMembers, ih]

mutual
/-- A document with distinct keys describes a schema with distinct keys. -/
theorem distinctKeys_ofValue : ∀ v : Value, v.distinctKeys → (ofValue v).distinctKeys = true
  | .object members, h => by
    rw [Value.distinctKeys, Bool.and_eq_true] at h
    rw [ofValue]
    exact distinctKeys_ofMembers members h.2
  | .null, _ | .bool _, _ | .number _, _ | .string _, _ | .array _, _ | .foreign _, _ => rfl

theorem distinctKeys_ofMembers :
    ∀ members, allMembersDistinctKeys members → (ofMembers members).distinctKeys = true
  | [], _ => rfl
  | (key, v) :: rest, h => by
    rw [allMembersDistinctKeys, Bool.and_eq_true] at h
    have hrest := distinctKeys_iff.mp (distinctKeys_ofMembers rest h.2)
    have hnode := distinctKeys_nodeOfValue v h.1
    have hmap := distinctKeys_mapOfValue v h.1
    obtain ⟨hdefinitions, helements, hproperties, hoptional, hvalues, hunion⟩ := hrest
    unfold ofMembers
    split <;> refine distinctKeys_iff.mpr ?_
    · exact ⟨hmap, helements, hproperties, hoptional, hvalues, hunion⟩
    · exact ⟨hdefinitions, helements, hproperties, hoptional, hvalues, hunion⟩
    · exact ⟨hdefinitions, helements, hproperties, hoptional, hvalues, hunion⟩
    · exact ⟨hdefinitions, helements, hproperties, hoptional, hvalues, hunion⟩
    · exact ⟨hdefinitions, hnode, hproperties, hoptional, hvalues, hunion⟩
    · exact ⟨hdefinitions, helements, hmap, hoptional, hvalues, hunion⟩
    · exact ⟨hdefinitions, helements, hproperties, hmap, hvalues, hunion⟩
    · exact ⟨hdefinitions, helements, hproperties, hoptional, hnode, hunion⟩
    · refine ⟨hdefinitions, helements, hproperties, hoptional, hvalues, ?_⟩
      cases v with
      | object parts =>
        rw [Value.distinctKeys, Bool.and_eq_true] at h
        exact distinctKeys_discriminatorOfMembers parts h.1.2
      | _ => rfl
    · exact ⟨hdefinitions, helements, hproperties, hoptional, hvalues, hunion⟩

theorem distinctKeys_nodeOfValue :
    ∀ v : Value, v.distinctKeys → distinctKeysOfNode (nodeOfValue v) = true
  | .object members, h => by
    rw [Value.distinctKeys, Bool.and_eq_true] at h
    exact distinctKeys_ofMembers members h.2
  | .null, _ | .bool _, _ | .number _, _ | .string _, _ | .array _, _ | .foreign _, _ => rfl

theorem distinctKeys_mapOfValue :
    ∀ v : Value, v.distinctKeys → distinctKeysOfMap (mapOfValue v) = true
  | .object members, h => by
    rw [Value.distinctKeys, Bool.and_eq_true, decide_eq_true_eq] at h
    rw [mapOfValue, distinctKeysOfMap, Bool.and_eq_true, decide_eq_true_eq, keys_mapOfMembers]
    exact ⟨h.1, distinctKeys_mapOfMembers members h.2⟩
  | .null, _ | .bool _, _ | .number _, _ | .string _, _ | .array _, _ | .foreign _, _ => rfl

theorem distinctKeys_mapOfMembers :
    ∀ members, allMembersDistinctKeys members → distinctKeysOfEntries (mapOfMembers members) = true
  | [], _ => rfl
  | (key, v) :: rest, h => by
    rw [allMembersDistinctKeys, Bool.and_eq_true] at h
    rw [mapOfMembers, distinctKeysOfEntries, Bool.and_eq_true]
    exact ⟨distinctKeys_ofValue v h.1, distinctKeys_mapOfMembers rest h.2⟩

theorem distinctKeys_discriminatorOfMembers :
    ∀ parts, allMembersDistinctKeys parts →
      distinctKeysOfUnion (some (discriminatorOfMembers parts)) = true
  | [], _ => rfl
  | (key, v) :: rest, h => by
    rw [allMembersDistinctKeys, Bool.and_eq_true] at h
    have hrest := distinctKeys_discriminatorOfMembers rest h.2
    unfold discriminatorOfMembers
    split
    · exact hrest
    · exact distinctKeys_mapOfValue v h.1
    · exact hrest
end

/-- A schema that is decoded from a document with distinct keys has distinct keys. -/
theorem distinctKeys_of_decode {v : Value} {s : Schema} (h : decode v = .ok s)
    (hv : v.distinctKeys) : s.distinctKeys = true := by
  unfold decode at h
  split_ifs at h
  cases hculprit : culprit? v with
  | some culprit =>
    rw [hculprit] at h
    cases h
  | none =>
    rw [hculprit] at h
    cases h
    exact distinctKeys_ofValue v hv

end SchemaForms.Schema
