import SchemaForms.Value.Basic

/-!
# Values without foreign leaves

A container holds no foreign leaf if what stands in it does not, and a value that is no foreign leaf
itself is of some kind.
-/

namespace SchemaForms

theorem isJson_array_iff {items : List Value} :
    (Value.array items).isJson = true ↔ ∀ x ∈ items, x.isJson = true := by
  rw [Value.isJson]
  induction items with
  | nil => simp [Value.allJson]
  | cons x rest ih => simp [Value.allJson, ih]

theorem isJson_object_iff {members : List (String × Value)} :
    (Value.object members).isJson = true ↔ ∀ key x, (key, x) ∈ members → x.isJson = true := by
  rw [Value.isJson]
  induction members with
  | nil => simp [Value.allMembersJson]
  | cons entry rest ih =>
    obtain ⟨key, x⟩ := entry
    rw [Value.allMembersJson, Bool.and_eq_true, ih]
    constructor
    · rintro ⟨hx, hrest⟩ name y hy
      rcases List.mem_cons.mp hy with heq | hy
      · cases heq
        exact hx
      · exact hrest name y hy
    · exact fun h => ⟨h key x (by simp), fun name y hy => h name y (by simp [hy])⟩

/-- A value without foreign leaves is of some kind. -/
theorem exists_kindOf {v : Value} (h : v.isJson) : ∃ kind, v.kindOf = .ok kind := by
  cases v with
  | foreign leaf => cases h
  | _ => exact ⟨_, rfl⟩

end SchemaForms
