import SchemaForms.Yaml.Cursor

/-!
# Plain scalars

A plain scalar is written without quotes. It ends at a comment, at a colon with a gap behind it, and
inside brackets also at the marks that brackets give a meaning to. It may go on over several lines,
which are joined, as long as they are indented more than the block around it.
-/

namespace SchemaForms.Yaml

/-- A scalar that was read: its text, the cursor behind it, and whether it ended with a line. -/
structure PlainScalar where
  text : List Char
  cursor : Cursor
  /-- Whether the cursor stands at the start of a new line. -/
  brokeLine : Bool

/-- Whether a colon ends a plain scalar, with `next` behind it. -/
def colonEnds (flow : Bool) (next : Option Char) : Bool :=
  isGap next || flow && next.any (",[]\x7b\x7d".toList.contains ·)

/-- The characters of a plain scalar up to the next blank or mark. -/
def plainWord (flow : Bool) : List Char → List Char
  | [] => []
  | c :: rest =>
    if isBlank c || c = ':' && colonEnds flow rest.head? ||
        flow && ",?[]\x7b\x7d".toList.contains c then []
    else c :: plainWord flow rest

/-- The line ends and the indentation in front of the next word, and the cursor there; without a
cursor if a marker of a document stands at the start of a line. -/
def plainBreaks : (fuel : Nat) → Cursor → Option (List Char × Cursor)
  | 0, c => some ([], c)
  | fuel + 1, c =>
    match c.lineBreak? with
    | some b =>
      if c.next.atSeparator then none
      else (plainBreaks fuel c.next).map fun (more, after) => (b :: more, after)
    | none => if c.peek = some ' ' then plainBreaks fuel c.next else some ([], c)

/-- The white space between two words of a plain scalar. -/
inductive PlainGap where
  /-- A marker of a document: the scalar is over. -/
  | separator (cursor : Cursor)
  | space (text : List Char) (cursor : Cursor) (brokeLine : Bool)

/-- The white space at a cursor, as it is kept. -/
def plainGap (c : Cursor) : PlainGap :=
  let spaces := c.run (· = ' ')
  let c := c.drop spaces.length
  match c.lineBreak? with
  | none => .space spaces c false
  | some first =>
    if c.next.atSeparator then .separator c.next
    else match plainBreaks c.rest.length c.next with
      | none => .separator c.next
      | some (more, after) => .space (joinLines first more) after true

/-- Reads words and the white space between them; `gap` stands in front of the next word. -/
def plainWords (flow : Bool) (indent : Int) :
    (fuel : Nat) → (gap : List Char) → (brokeLine : Bool) → Cursor → PlainScalar
  | 0, _, broke, c => ⟨[], c, broke⟩
  | fuel + 1, gap, broke, c =>
    let word := plainWord flow c.rest
    if c.peek = some '#' || word.isEmpty then ⟨[], c, broke⟩
    else
      let text := gap ++ word
      match plainGap (c.drop word.length) with
      | .separator after => ⟨text, after, true⟩
      | .space space after broke =>
        if space.isEmpty || after.peek = some '#' || !flow && after.column < indent then
          ⟨text, after, broke⟩
        else
          let more := plainWords flow indent fuel space broke after
          { more with text := text ++ more.text }

/-- Reads a plain scalar inside a block of this indentation. -/
def readPlain (flow : Bool) (blockIndent : Int) (c : Cursor) : PlainScalar :=
  plainWords flow (blockIndent + 1) (c.rest.length + 1) [] false c

end SchemaForms.Yaml
