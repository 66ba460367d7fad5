import SchemaForms.Proofs.Number.Exact
import SchemaForms.Proofs.Value.Reordered

/-!
# How numbers are written

Two values are *respelled* if they are the same but for the way in which numbers are written: as
integers, or as doubles of the same exact value (`Value.Respelled`). `Value.mapNumbers` exchanges
every number of a value. Respelled values become one when every number is exchanged for what scalar
types see of it (`Number.seen`, `Respelled.mapNumbers_seen`).
-/

namespace SchemaForms

/-- An exchange of numbers that no scalar type notices. -/
def Unnoticed (e : Number → Number) : Prop :=
  ∀ (t : ScalarType) n, t.admits (.number (e n)) = t.admits (.number n)

namespace Number

/-- A number as scalar types see it: by its value if that is whole, and as not-a-number if not. -/
def seen (n : Number) : Number :=
  match n.toInt? with
  | some k => .int k
  | none => .double .nan

theorem seen_unnoticed : Unnoticed seen := by
  intro t n
  refine ScalarType.admits_congr ?_ t
  rw [seen]
  cases n.toInt? with
  | none => rfl
  | some k => rfl

theorem seen_congr {m n : Number} (h : m.value? = n.value?) : m.seen = n.seen := by
  rw [seen, seen, toInt?_congr h]

end Number

namespace Value

mutual
/-- The value with every number in it exchanged. -/
def mapNumbers (e : Number → Number) : Value → Value
  | number n => number (e n)
  | array items => array (mapNumbersOfItems e items)
  | object members => object (mapNumbersOfMembers e members)
  | v => v

/-- The items with every number in them exchanged. -/
def mapNumbersOfItems (e : Number → Number) : List Value → List Value
  | [] => []
  | item :: rest => mapNumbers e item :: mapNumbersOfItems e rest

/-- The members with every number in them exchanged. -/
def mapNumbersOfMembers (e : Number → Number) : List (String × Value) → List (String × Value)
  | [] => []
  | (key, member) :: rest => (key, mapNumbers e member) :: mapNumbersOfMembers e rest
end

variable {e : Number → Number}

@[simp] theorem mapNumbers_array (items : List Value) :
    (array items).mapNumbers e = array (items.map (mapNumbers e)) := by
  rw [mapNumbers]
  congr 1
  induction items with
  | nil => rfl
  | cons x rest ih => rw [mapNumbersOfItems, ih, List.map_cons]

@[simp] theorem mapNumbers_object (members : List (String × Value)) :
    (object members).mapNumbers e =
      object (members.map fun entry => (entry.1, entry.2.mapNumbers e)) := by
  rw [mapNumbers]
  congr 1
  induction members with
  | nil => rfl
  | cons entry rest ih => rw [mapNumbersOfMembers, ih, List.map_cons]

/-- The same value, but for the way in which numbers are written. -/
inductive Respelled : Value → Value → Prop
  | refl (v : Value) : Respelled v v
  | number {m n : Number} {q : ℚ} (hm : m.value? = some q) (hn : n.value? = some q) :
      Respelled (.number m) (.number n)
  | array {items items' : List Value} (hlength : items.length = items'.length)
      (h : ∀ (i : Nat) x y, items[i]? = some x → items'[i]? = some y → Respelled x y) :
      Respelled (.array items) (.array items')
  | object {members members' : List (String × Value)}
      (hkeys : members.map (·.1) = members'.map (·.1))
      (h : ∀ (i : Nat) key x y, members[i]? = some (key, x) → members'[i]? = some (key, y) →
        Respelled x y) :
      Respelled (.object members) (.object members')

/-- Scalar types see the same of respelled values. -/
theorem Respelled.mapNumbers_seen {v w : Value} (h : v.Respelled w) :
    v.mapNumbers Number.seen = w.mapNumbers Number.seen := by
  induction h with
  | refl v => rfl
  | number hm hn => rw [mapNumbers, mapNumbers, Number.seen_congr (hm.trans hn.symm)]
  | array hlength _ ih =>
    rw [mapNumbers_array, mapNumbers_array]
    congr 1
    refine List.ext_getElem (by simp [hlength]) fun i hi hi' => ?_
    rw [List.length_map] at hi hi'
    rw [List.getElem_map, List.getElem_map]
    exact ih i _ _ (List.getElem?_eq_getElem hi) (List.getElem?_eq_getElem hi')
  | @object members members' hkeys _ ih =>
    rw [mapNumbers_object, mapNumbers_object]
    congr 1
    have hlength : members.length = members'.length := by
      simpa using congrArg List.length hkeys
    refine List.ext_getElem (by simp [hlength]) fun i hi hi' => ?_
    rw [List.length_map] at hi hi'
    have hkey : members[i].1 = members'[i].1 := by
      simpa [hi, hi'] using congrArg (·[i]?) hkeys
    rw [List.getElem_map, List.getElem_map, hkey]
    congr 1
    refine ih i members[i].1 _ _ (List.getElem?_eq_getElem hi) ?_
    rw [hkey]
    exact List.getElem?_eq_getElem hi'

/-! ## Numbers exchanged -/

theorem kindOf_mapNumbers (v : Value) : (v.mapNumbers e).kindOf = v.kindOf := by
  cases v with
  | array items => rw [mapNumbers_array]; rfl
  | object members => rw [mapNumbers_object]; rfl
  | _ => rfl

theorem mapNumbers_ne_array {v : Value} (h : ∀ items, v ≠ array items) (items : List Value) :
    v.mapNumbers e ≠ array items := by
  cases v with
  | array items' => exact absurd rfl (h items')
  | object members => simp
  | _ => simp [mapNumbers]

theorem mapNumbers_ne_object {v : Value} (h : ∀ members, v ≠ object members)
    (members : List (String × Value)) : v.mapNumbers e ≠ object members := by
  cases v with
  | array items => simp
  | object members' => exact absurd rfl (h members')
  | _ => simp [mapNumbers]

theorem resolve_mapNumbers (around : List Value) (v : Value) :
    (v.mapNumbers e).resolve (around.map (mapNumbers e)) =
      ((v.resolve around).1.map (mapNumbers e), (v.resolve around).2.mapNumbers e) := by
  cases v with
  | array items => simp only [resolve, mapNumbers_array]
  | object members => simp only [resolve, mapNumbers_object]
  | foreign leaf =>
    cases leaf with
    | leaf _ _ _ => rfl
    | again kind level =>
      simp only [mapNumbers, resolve, ← List.map_drop]
      cases around.drop level with
      | nil => rfl
      | cons container outer => rfl
  | _ => rfl

theorem admits_mapNumbers (he : Unnoticed e) (t : ScalarType) (v : Value) :
    t.admits (v.mapNumbers e) = t.admits v := by
  cases v with
  | number n => exact he t n
  | array items => rw [mapNumbers_array]; cases t <;> rfl
  | object members => rw [mapNumbers_object]; cases t <;> rfl
  | _ => rfl

end Value

end SchemaForms
