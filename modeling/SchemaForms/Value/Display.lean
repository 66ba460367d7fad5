import SchemaForms.Value.Basic
import SchemaForms.Number.Layout
import SchemaForms.Number.Reading
import SchemaForms.Text.Quoted

/-!
# Displayed values

`Value.display` shows a value inside a message: `None`, `True` and `False` for the three words,
quoted text, items between brackets, members between braces in their own order.

A message does not show an integer of more digits than `Number.digitLimit`. `Value.isShowable` says
whether there is none in a value.
-/

namespace SchemaForms

open SchemaForms.Text (quoted)

/-- A truth value in a message. -/
def displayBool (b : Bool) : String := if b then "True" else "False"

namespace Number

/-- A number in a message. -/
def display : Number → String
  | int value => toString value
  | double value => Layout.displayed.write value

/-- Whether a number has no more digits than a message shows. -/
def isShowable : Number → Bool
  | int value => (toString value.natAbs).length ≤ digitLimit
  | double _ => true

end Number

namespace Value

mutual
/-- A value in a message. -/
def display : Value → String
  | null => "None"
  | bool value => displayBool value
  | number value => value.display
  | string value => quoted value
  | array items => "[" ++ displayItems items ++ "]"
  | object members => "\x7b" ++ displayMembers members ++ "\x7d"
  | foreign leaf => leaf.display

/-- Items between commas. -/
def displayItems : List Value → String
  | [] => ""
  | [item] => display item
  | item :: next :: rest => display item ++ ", " ++ displayItems (next :: rest)

/-- Members between commas, each key before its value. -/
def displayMembers : List (String × Value) → String
  | [] => ""
  | [(key, member)] => quoted key ++ ": " ++ display member
  | (key, member) :: next :: rest =>
    quoted key ++ ": " ++ display member ++ ", " ++ displayMembers (next :: rest)
end

mutual
/-- Whether a value can be shown in a message. -/
def isShowable : Value → Bool
  | number value => value.isShowable
  | array items => allShowable items
  | object members => allMembersShowable members
  | foreign leaf => leaf.isShowable
  | _ => true

/-- Whether all items can be shown. -/
def allShowable : List Value → Bool
  | [] => true
  | item :: rest => isShowable item && allShowable rest

/-- Whether all members can be shown. -/
def allMembersShowable : List (String × Value) → Bool
  | [] => true
  | (_, member) :: rest => isShowable member && allMembersShowable rest
end

end Value

end SchemaForms
