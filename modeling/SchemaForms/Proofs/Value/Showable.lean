import SchemaForms.Value.Display

/-!
# Values that can be shown

A container can be shown in a message when all that stands in it can.
-/

namespace SchemaForms.Value

theorem isShowable_array_iff {items : List Value} :
    (array items).isShowable = true ↔ ∀ x ∈ items, x.isShowable = true := by
  rw [isShowable]
  induction items with
  | nil => simp [allShowable]
  | cons x rest ih => simp [allShowable, ih]

theorem allMembersShowable_iff {members : List (String × Value)} :
    allMembersShowable members = true ↔ ∀ entry ∈ members, entry.2.isShowable = true := by
  induction members with
  | nil => simp [allMembersShowable]
  | cons entry rest ih => rw [allMembersShowable, Bool.and_eq_true, ih, List.forall_mem_cons]

theorem isShowable_object_iff {members : List (String × Value)} :
    (object members).isShowable = true ↔ ∀ entry ∈ members, entry.2.isShowable = true := by
  rw [isShowable, allMembersShowable_iff]

end SchemaForms.Value
