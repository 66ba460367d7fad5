import SchemaForms.Value.Display

/-!
# Sets of keys

A set of keys is a leaf that no JSON text can express. Keys are told apart by their value, so a
truth value and a whole double equal an integer.

Numbers are displayed in the order of the slots that they take in an open table: each one the slot
of its residue, or the next free one on its way. Other keys are displayed in the order in which they
were put in.
-/

namespace SchemaForms.Yaml.KeySet

open SchemaForms.Number (Double)

/-- What a key is, up to equality. -/
def identity (key : Value) : String :=
  match key with
  | .bool b => toString (if b then 1 else 0)
  | .number n => match n.toInt? with
    | some value => toString value
    | none => n.display
  | other => other.display

/-- Adds a key to those of a set, if none equals it. -/
def insert (keys : List Value) (key : Value) : List Value :=
  if keys.any fun k => identity k = identity key then keys else keys ++ [key]

/-! ## Slots -/

/-- The residue of a whole number that is at least zero. -/
def wholeResidue (n : Nat) : Nat := n % (Nat.pow 2 61 - 1)

/-- The residue of a number, as a word of 64 bits. The unit of doubles, 2^-1074, has the residue of
2^24. -/
def numberResidue : Number → Option Nat
  | .int n => some (signed (n < 0) (wholeResidue n.natAbs))
  | .double (.finite negative rank) =>
    some (signed negative (wholeResidue (Double.units rank * Nat.pow 2 24)))
  | .double (.infinite negative) => some (signed negative 314159)
  | .double .nan => none
where
  /-- A residue with a sign; the one of -1 is that of -2. -/
  signed (negative : Bool) (residue : Nat) : Nat :=
    if negative && residue ≠ 0 then
      Nat.pow 2 64 - (if residue = 1 then 2 else residue)
    else residue

/-- The residue of a key that is a number or a truth value. -/
def residue? : Value → Option Nat
  | .bool b => some (if b then 1 else 0)
  | .number n => numberResidue n
  | _ => none

/-- The least power of two, from `size` on, of which `keys` fills less than half. -/
def doubled (keys : Nat) : (fuel : Nat) → (size : Nat) → Nat
  | 0, size => size
  | fuel + 1, size => if 2 * keys < size then size else doubled keys fuel (2 * size)

/-- How many slots the table for so many keys has. -/
def tableSize (keys : Nat) : Nat := if keys < 5 then 8 else doubled keys keys 8

/-- The first free slot on the way of a key: a row of ten slots if the table has them, and then
those from another one on, for which more and more of the residue counts. -/
def freeSlot (table : Array (Option Value)) : (fuel : Nat) → (slot residue : Nat) → Nat
  | 0, slot, _ => slot
  | fuel + 1, slot, residue =>
    let row := if slot + 9 < table.size then List.range' slot 10 else [slot]
    match row.find? fun i => (table.getD i none).isNone with
    | some i => i
    | none => freeSlot table fuel ((slot * 5 + 1 + residue / 32) % table.size) (residue / 32)

/-- The table with a key put in. -/
def place (table : Array (Option Value)) (key : Value) (residue : Nat) : Array (Option Value) :=
  table.setIfInBounds (freeSlot table (table.size + 16) (residue % table.size) residue) (some key)

/-- The keys in the order in which they are displayed. -/
def ordered (keys : List Value) : List Value :=
  match keys.mapM fun key => (residue? key).map fun residue => (key, residue) with
  | none => keys
  | some placed =>
    let table := placed.foldl (fun table (key, residue) => place table key residue)
      (Array.replicate (tableSize keys.length) none)
    table.toList.filterMap id

/-- The leaf of a set. -/
def leaf (keys : List Value) : Foreign :=
  .leaf "set"
    (if keys.isEmpty then "set()"
      else "\x7b" ++ ", ".intercalate ((ordered keys).map Value.display) ++ "\x7d")
    (keys.all Value.isShowable)

end SchemaForms.Yaml.KeySet
