import SchemaForms.Proofs.Value.Json
import SchemaForms.Proofs.Value.Keys

/-!
# Proper values

A value is proper if it holds no foreign leaf and no object in it has a key twice, as every value is
that stands for a JSON text. A container is proper when what stands in it is, with distinct keys in
the case of an object.
-/

namespace SchemaForms.Value

/-- The value holds no foreign leaf, and no object in it has a key twice. -/
structure Proper (v : Value) : Prop where
  json : v.isJson = true
  distinct : v.distinctKeys = true

theorem proper_array_iff {items : List Value} :
    (array items).Proper ↔ ∀ x ∈ items, x.Proper := by
  constructor
  · rintro ⟨hjson, hdistinct⟩ x hx
    exact ⟨isJson_array_iff.mp hjson x hx, distinctKeys_array_iff.mp hdistinct x hx⟩
  · intro h
    exact ⟨isJson_array_iff.mpr fun x hx => (h x hx).json,
      distinctKeys_array_iff.mpr fun x hx => (h x hx).distinct⟩

theorem proper_object_iff {members : List (String × Value)} :
    (object members).Proper ↔
      (members.map (·.1)).Nodup ∧ ∀ entry ∈ members, entry.2.Proper := by
  constructor
  · rintro ⟨hjson, hdistinct⟩
    obtain ⟨hnodup, hdistinct⟩ := distinctKeys_object_iff.mp hdistinct
    exact ⟨hnodup, fun entry h => ⟨isJson_object_iff.mp hjson _ _ h, hdistinct entry h⟩⟩
  · rintro ⟨hnodup, h⟩
    exact ⟨isJson_object_iff.mpr fun key x hx => (h (key, x) hx).json,
      distinctKeys_object_iff.mpr ⟨hnodup, fun entry hentry => (h entry hentry).distinct⟩⟩

theorem proper_collectMembers {pairs : List (String × Value)}
    (h : ∀ pair ∈ pairs, pair.2.Proper) : (object (collectMembers pairs)).Proper := by
  refine proper_object_iff.mpr ⟨nodup_keys_collectMembers pairs, fun entry hentry => ?_⟩
  obtain ⟨pair, hpair, heq⟩ := exists_mem_of_mem_collectMembers hentry
  exact heq ▸ h pair hpair

end SchemaForms.Value
