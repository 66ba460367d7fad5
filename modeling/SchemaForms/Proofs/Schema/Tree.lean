import Mathlib.Logic.Relation
import SchemaForms.Proofs.Schema.Groups

/-!
# The tree below a schema node

`Child` are the nodes directly below a node, the definitions of the node left out: those are no part
of the tree. The *checked* nodes of a root are its own tree and the trees of its definitions, which
is where a walk can get to. `height` counts the edges of the longest way down, so that an induction
on the height goes from the children to the node; no checked node is higher than `topHeight`.
-/

namespace SchemaForms.Schema

/-- The second node is directly below the first one. -/
inductive Child (s : Schema) : Schema → Prop
  | elements {item : Schema} (h : s.elements = some item) : Child s item
  | required {map : List (String × Schema)} {name : String} {t : Schema}
      (h : s.properties = some map) (ht : (name, t) ∈ map) : Child s t
  | optional {map : List (String × Schema)} {name : String} {t : Schema}
      (h : s.optionalProperties = some map) (ht : (name, t) ∈ map) : Child s t
  | values {member : Schema} (h : s.values = some member) : Child s member
  | tagged {tag value : String} {mapping : List (String × Schema)} {t : Schema}
      (h : s.discriminator = some ⟨tag, some mapping⟩) (ht : (value, t) ∈ mapping) : Child s t

/-- The second node is the first one or somewhere below it. -/
def Below : Schema → Schema → Prop := Relation.ReflTransGen Child

/-- A node with a node below it is no reference, if it has the keywords of one form at most. -/
theorem Child.ref_eq_none {s t : Schema} (hs : s.Sole) (h : Child s t) : s.ref = none := by
  by_contra hne
  have href : s.Populates .ref := Option.ne_none_iff_exists'.mp hne
  cases h with
  | elements h => cases hs _ .elements href ⟨_, h⟩
  | required h _ => cases hs _ .properties href (.inl ⟨_, h⟩)
  | optional h _ => cases hs _ .properties href (.inr ⟨_, h⟩)
  | values h => cases hs _ .values href ⟨_, h⟩
  | tagged h _ => cases hs _ .discriminator href ⟨_, _, h⟩

/-- The node is in the tree of the root or of one of its definitions. -/
inductive CheckedNode (root : Schema) : Schema → Prop
  | root : CheckedNode root root
  | definition {name : String} {s : Schema} (h : (name, s) ∈ entries root.definitions) :
      CheckedNode root s
  | child {s t : Schema} (h : CheckedNode root s) (ht : Child s t) : CheckedNode root t

theorem CheckedNode.of_below {root s t : Schema} (h : CheckedNode root s) (ht : Below s t) :
    CheckedNode root t := by
  induction ht with
  | refl => exact h
  | tail _ hchild ih => exact ih.child hchild

/-! ## Height -/

mutual
/-- The number of edges on the longest way down from a node. -/
def height : Schema → Nat
  | ⟨_, _, _, _, elements, properties, optionalProperties, values, discriminator⟩ =>
    max (heightOfNode elements) <| max (heightOfMap properties) <|
      max (heightOfMap optionalProperties) <|
        max (heightOfNode values) (heightOfUnion discriminator)

/-- The height of a node with this node alone below it. -/
def heightOfNode : Option Schema → Nat
  | none => 0
  | some s => height s + 1

/-- The height of a node with the nodes of a map below it. -/
def heightOfMap : Option (List (String × Schema)) → Nat
  | none => 0
  | some map => heightOfEntries map

/-- The height of a node with the schemas of a tagged union below it. -/
def heightOfUnion : Option (Discriminator Schema) → Nat
  | none => 0
  | some ⟨_, mapping⟩ => heightOfMap mapping

/-- The height of a node with these nodes below it. -/
def heightOfEntries : List (String × Schema) → Nat
  | [] => 0
  | (_, s) :: rest => max (height s + 1) (heightOfEntries rest)
end

theorem height_lt_heightOfEntries {map : List (String × Schema)} {name : String} {s : Schema}
    (h : (name, s) ∈ map) : s.height < heightOfEntries map := by
  induction map with
  | nil => cases h
  | cons entry rest ih =>
    obtain ⟨key, t⟩ := entry
    rw [heightOfEntries]
    rcases List.mem_cons.mp h with heq | hrest
    · cases heq
      omega
    · have := ih hrest
      omega

theorem height_eq (s : Schema) :
    s.height = max (heightOfNode s.elements) (max (heightOfMap s.properties)
      (max (heightOfMap s.optionalProperties) (max (heightOfNode s.values)
        (heightOfUnion s.discriminator)))) := by
  cases s
  rw [height]

theorem Child.height_lt {s t : Schema} (h : Child s t) : t.height < s.height := by
  rw [height_eq s]
  cases h with
  | elements h =>
    simp only [h, heightOfNode]
    omega
  | required h ht =>
    have := height_lt_heightOfEntries ht
    simp only [h, heightOfMap]
    omega
  | optional h ht =>
    have := height_lt_heightOfEntries ht
    simp only [h, heightOfMap]
    omega
  | values h =>
    simp only [h, heightOfNode]
    omega
  | tagged h ht =>
    have := height_lt_heightOfEntries ht
    simp only [h, heightOfUnion, heightOfMap]
    omega

/-- The height of the highest tree of a root: its own, or that of one of its definitions. -/
def topHeight (root : Schema) : Nat :=
  ((entries root.definitions).map (·.2.height)).foldr max root.height

theorem le_foldr_max (heights : List Nat) (least : Nat) :
    least ≤ heights.foldr max least ∧ ∀ h ∈ heights, h ≤ heights.foldr max least := by
  induction heights with
  | nil => simp
  | cons h rest ih =>
    obtain ⟨hleast, hrest⟩ := ih
    rw [List.foldr_cons, List.forall_mem_cons]
    refine ⟨Nat.le_trans hleast (Nat.le_max_right _ _), Nat.le_max_left _ _, fun h' hh' => ?_⟩
    exact Nat.le_trans (hrest h' hh') (Nat.le_max_right _ _)

theorem CheckedNode.height_le {root s : Schema} (h : CheckedNode root s) :
    s.height ≤ root.topHeight := by
  induction h with
  | root => exact (le_foldr_max _ _).1
  | definition h => exact (le_foldr_max _ _).2 _ (List.mem_map_of_mem h)
  | child _ hchild ih => exact Nat.le_trans (Nat.le_of_lt hchild.height_lt) ih

/-- What the children hand up to a node holds of every node. -/
theorem child_induction {motive : Schema → Prop}
    (node : ∀ s, (∀ t, Child s t → motive t) → motive s) (s : Schema) : motive s := by
  induction hn : s.height using Nat.strongRecOn generalizing s with
  | ind n ih =>
    subst hn
    exact node s fun t ht => ih t.height ht.height_lt t rfl

end SchemaForms.Schema
