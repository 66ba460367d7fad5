import SchemaForms.Yaml.KeySet

/-!
# Containers under construction

While a document is put together, a container may be a part of others before its own parts are
known, and even of itself. So containers stand in a `Store`, where parts name them by their numbers.
A part that is complete is a value at once.

`Store.value` is what a part comes to as the store stands: a container that is not filled yet is
empty, and one inside itself becomes a leaf that says so.
-/

namespace SchemaForms.Yaml

/-- A part of a container. -/
inductive Part where
  | value (v : Value)
  /-- The container of this number. -/
  | container (number : Nat)

/-- The value of a part that is complete. -/
def Part.value? : Part → Option Value
  | value v => some v
  | container _ => none

/-- What a container holds. -/
inductive Container where
  | list (parts : List Part)
  | object (members : List (String × Part))
  /-- A pair out of a list of pairs. -/
  | tuple (parts : List Part)
  | set (keys : List Value)

/-- The leaf of a tuple. -/
def tupleLeaf (parts : List Value) : Foreign :=
  .leaf "tuple" ("(" ++ ", ".intercalate (parts.map Value.display) ++ ")")
    (parts.all Value.isShowable)

namespace Container

/-- The parts that a container holds. -/
def parts : Container → List Part
  | list parts => parts
  | object members => members.map (·.2)
  | tuple parts => parts
  | set _ => []

/-- The container with other parts in place of its own. -/
def mapParts (f : Part → Part) : Container → Container
  | list parts => .list (parts.map f)
  | object members => .object (members.map fun (key, part) => (key, f part))
  | tuple parts => .tuple (parts.map f)
  | set keys => .set keys

/-- The value of a container whose parts come to these values. -/
def assemble (value : Part → Value) : Container → Value
  | list parts => .array (parts.map value)
  | object members => .object (members.map fun (key, part) => (key, value part))
  | tuple parts => .foreign (tupleLeaf (parts.map value))
  | set keys => .foreign (KeySet.leaf keys)

/-- The value of a container whose parts are all complete. -/
def complete? (c : Container) : Option Value :=
  if c.parts.all fun part => part.value?.isSome then
    some (c.assemble fun part => part.value?.getD .null)
  else none

end Container

/-- Containers by their numbers. -/
abbrev Store := Array Container

namespace Store

/-- The container of a number. -/
def container (s : Store) (n : Nat) : Container := s.getD n (.list [])

/-- Puts the values of containers that are complete in their places. -/
def settleOnce (s : Store) : Store :=
  let values := s.map Container.complete?
  s.map fun c => c.mapParts fun
    | .value v => .value v
    | .container n => (values.getD n none).elim (.container n) .value

/-- How many containers are not complete. -/
def incomplete (s : Store) : Nat := s.countP fun c => c.complete?.isNone

/-- Settles containers until none more is complete. A container that is a part of many others is put
together once, and only those that are inside themselves, or hold such, are left. -/
def settle : (rounds : Nat) → Store → Store
  | 0, s => s
  | rounds + 1, s =>
    let settled := s.settleOnce
    if settled.incomplete < s.incomplete then settle rounds settled else settled

/-- The value of a part; `around` has the numbers of the arrays and objects that it is in, the
innermost first. None of them is entered again, so the number of containers is fuel enough. -/
def valueIn (s : Store) : (fuel : Nat) → (around : List Nat) → Part → Value
  | _, _, .value v => v
  | 0, _, .container _ => .null
  | fuel + 1, around, .container n =>
    let c := s.container n
    match around.idxOf? n, c with
    | some level, .object _ => .foreign (.again .object level)
    | some level, _ => .foreign (.again .array level)
    | none, .tuple _ => c.assemble (valueIn s fuel around)
    | none, _ => c.assemble (valueIn s fuel (n :: around))

/-- The value of a part as the store stands. -/
def value (s : Store) (part : Part) : Value :=
  (settle s.size s).valueIn (s.size + 1) [] part

end Store

end SchemaForms.Yaml
