import SchemaForms.Value.Basic

/-!
# Values with their members in order

`Value.sorted` puts the members of every object into the order of their keys, by code point.
-/

namespace SchemaForms

/-- Whether the key of the first member may stand before that of the second. -/
def keyBefore {α : Type} (a b : String × α) : Bool := decide (a.1 ≤ b.1)

namespace Value

mutual
/-- The value with the members of every object in the order of their keys. -/
def sorted : Value → Value
  | array items => array (sortedItems items)
  | object members => object ((sortedMembers members).mergeSort keyBefore)
  | value => value

/-- Every item sorted. -/
def sortedItems : List Value → List Value
  | [] => []
  | item :: rest => sorted item :: sortedItems rest

/-- Every member sorted in itself, in the order they have. -/
def sortedMembers : List (String × Value) → List (String × Value)
  | [] => []
  | (key, member) :: rest => (key, sorted member) :: sortedMembers rest
end

end Value

end SchemaForms
