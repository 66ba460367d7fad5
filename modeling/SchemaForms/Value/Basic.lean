import SchemaForms.Number.Basic

/-!
# Document values

`Value` is what a document decodes to: the six kinds of JSON, with the members of an object in the
order of the document, and `foreign` leaves for what other notations can write and JSON cannot: a
date, octets, a set, or a container inside itself. `Value.kindOf` sorts a value into its kind.

A container inside itself is a leaf that says how many containers further out the one stands that is
meant. `Value.resolve` finds it, given the containers around.
-/

namespace SchemaForms

/-- The kinds of JSON value. -/
inductive Kind where
  | null
  | boolean
  | number
  | string
  | array
  | object
  deriving DecidableEq, Repr

namespace Kind

/-- All kinds, in their usual order. -/
def all : List Kind := [null, boolean, number, string, array, object]

/-- The name of a kind. -/
def name : Kind → String
  | null => "null"
  | boolean => "boolean"
  | number => "number"
  | string => "string"
  | array => "array"
  | object => "object"

/-- The kind of a name. -/
def ofName? (name : String) : Option Kind :=
  all.find? (·.name = name)

end Kind

/-- What no JSON text can express. -/
inductive Foreign where
  /-- A leaf: the name of its class, the text that displays it, and whether all integers in that
  text are short enough to be shown. -/
  | leaf (className display : String) (showable : Bool)
  /-- The array or object around the place, so many containers further out than the innermost. -/
  | again (kind : Kind) (level : Nat)
  deriving DecidableEq, Repr

namespace Foreign

/-- The name of the class of a leaf. -/
def className : Foreign → String
  | leaf className _ _ => className
  | again .array _ => "list"
  | again _ _ => "dict"

/-- The text that displays a leaf. A container inside itself is displayed once. -/
def display : Foreign → String
  | leaf _ display _ => display
  | again .array _ => "[...]"
  | again _ _ => "\x7b...\x7d"

/-- Whether a leaf can be shown. -/
def isShowable : Foreign → Bool
  | leaf _ _ showable => showable
  | again _ _ => true

end Foreign

/-- A decoded document. -/
inductive Value where
  | null
  | bool (value : Bool)
  | number (value : Number)
  | string (value : String)
  | array (items : List Value)
  | object (members : List (String × Value))
  | foreign (leaf : Foreign)

namespace Value

/-- The whole number `n` as a value. -/
def int (n : Int) : Value := number (.int n)

/-- The kind of a value; a leaf that no JSON text can express has none. -/
def kindOf : Value → Except Foreign Kind
  | null => .ok .null
  | bool _ => .ok .boolean
  | number _ => .ok .number
  | string _ => .ok .string
  | array _ => .ok .array
  | object _ => .ok .object
  | foreign (.again kind _) => .ok kind
  | foreign leaf => .error leaf

/-- A value with the containers around it, the innermost first: a leaf that stands for one of them
is replaced by that container, with the containers around that one. -/
def resolve (around : List Value) : Value → List Value × Value
  | foreign (.again kind level) =>
    match around.drop level with
    | container :: outer => (outer, container)
    | [] => (around, foreign (.again kind level))
  | v => (around, v)

mutual
/-- Whether the value holds no foreign leaf, at any depth. -/
def isJson : Value → Bool
  | array items => allJson items
  | object members => allMembersJson members
  | foreign _ => false
  | _ => true

/-- Whether no item holds a foreign leaf. -/
def allJson : List Value → Bool
  | [] => true
  | item :: rest => isJson item && allJson rest

/-- Whether no member holds a foreign leaf. -/
def allMembersJson : List (String × Value) → Bool
  | [] => true
  | (_, member) :: rest => isJson member && allMembersJson rest
end

end Value

/-! ## Members by key -/

/-- The members with `key` bound to `value`: a key that is there keeps its place. -/
def insertMember {α : Type} (key : String) (value : α) :
    List (String × α) → List (String × α)
  | [] => [(key, value)]
  | (k, v) :: rest => if k = key then (k, value) :: rest else (k, v) :: insertMember key value rest

/-- The members of a list of pairs in which keys may repeat: each key keeps its first place and
takes its last value. -/
def collectMembers {α : Type} (pairs : List (String × α)) : List (String × α) :=
  pairs.foldl (fun members (key, value) => insertMember key value members) []

end SchemaForms
