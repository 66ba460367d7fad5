import SchemaForms.Value.Basic

/-!
# The height of a value

How deeply the items and members of a value are nested. A container without any has height zero, as
a leaf has.
-/

namespace SchemaForms.Value

mutual
/-- The number of steps on the longest way into a value. -/
def height : Value → Nat
  | array items => heightOfItems items
  | object members => heightOfMembers members
  | _ => 0

/-- The height of an array of these items. -/
def heightOfItems : List Value → Nat
  | [] => 0
  | item :: rest => max (height item + 1) (heightOfItems rest)

/-- The height of an object of these members. -/
def heightOfMembers : List (String × Value) → Nat
  | [] => 0
  | (_, member) :: rest => max (height member + 1) (heightOfMembers rest)
end

theorem height_lt_of_mem_items {items : List Value} {x : Value} (h : x ∈ items) :
    x.height < (array items).height := by
  rw [height]
  induction items with
  | nil => cases h
  | cons item rest ih =>
    rw [heightOfItems]
    rcases List.mem_cons.mp h with rfl | hrest
    · omega
    · have := ih hrest
      omega

theorem height_lt_of_mem_members {members : List (String × Value)} {key : String} {x : Value}
    (h : (key, x) ∈ members) : x.height < (object members).height := by
  rw [height]
  induction members with
  | nil => cases h
  | cons entry rest ih =>
    obtain ⟨name, member⟩ := entry
    rw [heightOfMembers]
    rcases List.mem_cons.mp h with heq | hrest
    · cases heq
      omega
    · have := ih hrest
      omega

end SchemaForms.Value
