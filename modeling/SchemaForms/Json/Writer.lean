import SchemaForms.Number.Layout
import SchemaForms.Text.Hex
import SchemaForms.Value.Sorted

/-!
# Writing JSON

`Json.write` writes a value in a `Style`; `Json.canonical` sorts the members of every object first
and ends the text with a line feed, so that values which differ in member order alone have one text.
-/

namespace SchemaForms.Json

open SchemaForms.Text (hexPadded)

/-- The white space of a JSON text. -/
structure Style where
  /-- How far each level is indented; without it everything stands on one line. -/
  indent : Option Nat
  /-- What separates items and members. -/
  comma : List Char
  /-- What separates a key from its value. -/
  colon : List Char

namespace Style

/-- No white space at all. -/
def compact : Style := ⟨none, [','], [':']⟩

/-- One line with a space after each separator, or items on lines of their own. -/
def spaced (indent : Option Nat) : Style :=
  ⟨indent, if indent.isSome then [','] else [',', ' '], [':', ' ']⟩

/-- The start of a line at a level, if the style has lines. -/
def lineStart (style : Style) (level : Nat) : List Char :=
  match style.indent with
  | none => []
  | some width => '\n' :: List.replicate (width * level) ' '

end Style

/-- How one character is written inside a string. -/
def writeChar (c : Char) : List Char :=
  if c = '\x22' then ['\\', '\x22']
  else if c = '\\' then ['\\', '\\']
  else if c = '\n' then ['\\', 'n']
  else if c = '\r' then ['\\', 'r']
  else if c = '\t' then ['\\', 't']
  else if c = '\x08' then ['\\', 'b']
  else if c = '\x0c' then ['\\', 'f']
  else if c.toNat < 0x20 then '\\' :: 'u' :: hexPadded 4 c.toNat
  else [c]

/-- A string between double quotes. -/
def writeString (s : String) : List Char :=
  '\x22' :: (s.toList.flatMap writeChar ++ ['\x22'])

/-- A number: an integer in decimal, a double by its shortest digits. -/
def writeNumber : Number → List Char
  | .int value => (toString value).toList
  | .double value => (Number.Layout.json.write value).toList

mutual
/-- A value at a level of nesting. A foreign leaf has no JSON form and is written as the string
that displays it. -/
def writeValue (style : Style) (level : Nat) : Value → List Char
  | .null => "null".toList
  | .bool true => "true".toList
  | .bool false => "false".toList
  | .number value => writeNumber value
  | .string value => writeString value
  | .array [] => ['[', ']']
  | .array (item :: rest) =>
    '[' :: (style.lineStart (level + 1) ++ writeItems style (level + 1) (item :: rest) ++
      style.lineStart level ++ [']'])
  | .object [] => ['\x7b', '\x7d']
  | .object (member :: rest) =>
    '\x7b' :: (style.lineStart (level + 1) ++ writeMembers style (level + 1) (member :: rest) ++
      style.lineStart level ++ ['\x7d'])
  | .foreign leaf => writeString leaf.display

/-- Items with separators between them. -/
def writeItems (style : Style) (level : Nat) : List Value → List Char
  | [] => []
  | [item] => writeValue style level item
  | item :: next :: rest =>
    writeValue style level item ++ style.comma ++ style.lineStart level ++
      writeItems style level (next :: rest)

/-- Members with separators between them. -/
def writeMembers (style : Style) (level : Nat) : List (String × Value) → List Char
  | [] => []
  | [(key, member)] => writeString key ++ style.colon ++ writeValue style level member
  | (key, member) :: next :: rest =>
    writeString key ++ style.colon ++ writeValue style level member ++ style.comma ++
      style.lineStart level ++ writeMembers style level (next :: rest)
end

/-- The text of a value, its members in the order they have. -/
def write (style : Style) (value : Value) : String :=
  String.ofList (writeValue style 0 value)

/-- The canonical text of a value: members in the order of their keys, a line feed at the end. -/
def canonical (indent : Option Nat) (value : Value) : String :=
  write (.spaced indent) value.sorted ++ "\n"

end SchemaForms.Json
