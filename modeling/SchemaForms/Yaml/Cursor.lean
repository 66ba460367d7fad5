/-!
# Places in a YAML text

A `Mark` is a place in a text and a `Cursor` is a mark with the characters from there on. Lines end
at a line feed, a next-line control, or a line or paragraph separator; carriage returns have been
turned into line feeds before. A byte order mark takes no column.

`Mark.describe` shows the line of a mark with a caret below the column.
-/

namespace SchemaForms.Yaml

/-- A place in a text, counted from zero. -/
structure Mark where
  index : Nat
  line : Nat
  column : Nat
  deriving DecidableEq, Repr

/-- Whether `c` ends a line. -/
def isBreak (c : Char) : Bool :=
  c = '\n' || c = '\x85' || c = '\u2028' || c = '\u2029'

/-- Whether `c` is a space, a tab or the end of a line. -/
def isBlank (c : Char) : Bool := c = ' ' || c = '\t' || isBreak c

/-- Whether what comes next ends a word: a blank, or the end of the text. -/
def isGap (c : Option Char) : Bool :=
  match c with
  | none => true
  | some c => isBlank c

/-- Whether what comes next is a space, the end of a line or the end of the text. A tab is not. -/
def isSpaceGap (c : Option Char) : Bool := isGap c && c ≠ some '\t'

/-- Whether what comes next ends a line, or the text. -/
def isLineEnd (c : Option Char) : Bool :=
  match c with
  | none => true
  | some c => isBreak c

namespace Mark

/-- Where a text starts. -/
def start : Mark := ⟨0, 0, 0⟩

/-- The place after a character. -/
def past (m : Mark) (c : Char) : Mark :=
  if isBreak c then ⟨m.index + 1, m.line + 1, 0⟩
  else if c = '\ufeff' then { m with index := m.index + 1 }
  else { m with index := m.index + 1, column := m.column + 1 }

/-- How many characters of a line are shown on each side before it is cut. -/
def snippetReach : Nat := 36

/-- How many are shown when it is cut. -/
def snippetCut : Nat := 32

/-- The line around a place, indented by four, over a line with a caret at the place. A side that
reaches further than `snippetReach` is cut, with dots in place of the rest. -/
def snippet (m : Mark) (text : List Char) : List Char :=
  let before := ((text.take m.index).reverse.takeWhile (!isBreak ·)).reverse
  let after := (text.drop m.index).takeWhile (!isBreak ·)
  let dots := " ... ".toList
  let (head, before) :=
    if snippetReach < before.length then (dots, before.drop (before.length - snippetCut))
    else ([], before)
  let (after, tail) :=
    if snippetReach < after.length then (after.take snippetCut, dots) else (after, [])
  List.replicate 4 ' ' ++ head ++ before ++ after ++ tail ++ '\n' ::
    (List.replicate (4 + head.length + before.length) ' ' ++ ['^'])

/-- The place in words, with its line. -/
def describe (m : Mark) (text : List Char) : String :=
  "  in \"<unicode string>\", line " ++ toString (m.line + 1) ++ ", column " ++
    toString (m.column + 1) ++ ":\n" ++ String.ofList (m.snippet text)

end Mark

/-- A place with the characters from there on. -/
structure Cursor where
  mark : Mark
  rest : List Char

namespace Cursor

/-- The next character, if the text goes on. -/
def peek (c : Cursor) : Option Char := c.rest.head?

/-- The cursor after the next character. -/
def next (c : Cursor) : Cursor :=
  match c.rest with
  | [] => c
  | ch :: rest => ⟨c.mark.past ch, rest⟩

/-- The cursor after so many characters. -/
def drop (c : Cursor) : Nat → Cursor
  | 0 => c
  | n + 1 => c.next.drop n

/-- The longest run of characters with a property. -/
def run (c : Cursor) (p : Char → Bool) : List Char := c.rest.takeWhile p

/-- The cursor after the longest run of characters with a property. -/
def skip (c : Cursor) (p : Char → Bool) : Cursor := c.drop (c.run p).length

/-- The column, counted from zero. -/
def column (c : Cursor) : Nat := c.mark.column

/-- Whether a marker of a document's start or end stands here, with nothing behind it. -/
def atSeparator (c : Cursor) : Bool :=
  match c.rest with
  | '-' :: '-' :: '-' :: rest => isGap rest.head?
  | '.' :: '.' :: '.' :: rest => isGap rest.head?
  | _ => false

/-- The line end here, as it is kept in a scalar: a separator of lines or paragraphs stays, any
other one is a line feed. -/
def lineBreak? (c : Cursor) : Option Char :=
  match c.peek with
  | some ch => if isBreak ch then some (if ch = '\x85' then '\n' else ch) else none
  | none => none

/-- The cursor after a line end, if there is one. -/
def skipBreak (c : Cursor) : Cursor := if c.lineBreak?.isSome then c.next else c

/-- The cursor after spaces and a comment. -/
def skipComment (c : Cursor) : Cursor :=
  let c := c.skip (· = ' ')
  if c.peek = some '#' then c.skip (!isBreak ·) else c

end Cursor

/-- How a line end with more line ends behind it is kept when lines are joined: alone it is a space,
and followed by others it is dropped, unless it is a separator of its own. -/
def joinLines (first : Char) (more : List Char) : List Char :=
  if first ≠ '\n' then first :: more
  else if more.isEmpty then [' ']
  else more

end SchemaForms.Yaml
