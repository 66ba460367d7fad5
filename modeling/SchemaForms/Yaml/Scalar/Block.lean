import SchemaForms.Yaml.Fault

/-!
# Block scalars

A block scalar is a header on a line of its own and lines indented under it. A literal one keeps its
line ends; in a folded one a line end between two lines that start with no white space becomes a
space. The header may tell the indentation, and whether the line ends after the last line are all
kept, all dropped, or kept as one.
-/

namespace SchemaForms.Yaml

/-- What is done with the line ends after the last line. -/
inductive Chomping where
  | clip
  | strip
  | keep
  deriving DecidableEq, Repr

/-- What the header of a block scalar says. -/
structure BlockHeader where
  chomping : Chomping
  /-- How much further than its surroundings the scalar is indented, if the header tells. -/
  increment : Option Nat

/-- The chomping that a sign asks for. -/
def chomping? (c : Option Char) : Option Chomping :=
  match c with
  | some '+' => some .keep
  | some '-' => some .strip
  | _ => none

/-- The indentation that a digit asks for; a zero is refused. -/
def increment? (c : Option Char) : Except Error (Option Nat) :=
  match c with
  | some ch =>
    if '1' ≤ ch ∧ ch ≤ '9' then .ok (some (ch.toNat - '0'.toNat))
    else if ch = '0' then .error .malformed
    else .ok none
  | none => .ok none

/-- Reads a header: a sign and a digit, either of them or neither, in any order, and then nothing
but a comment up to the end of the line. -/
def readBlockHeader (c : Cursor) : Except Error (BlockHeader × Cursor) := do
  let (header, c) ← match chomping? c.peek with
    | some chomping => do
      let increment ← increment? c.next.peek
      .ok ((⟨chomping, increment⟩ : BlockHeader), if increment.isSome then c.next.next else c.next)
    | none => do
      let increment ← increment? c.peek
      let c := if increment.isSome then c.next else c
      match increment, chomping? c.peek with
        | some _, some chomping => .ok (⟨chomping, increment⟩, c.next)
        | _, _ => .ok (⟨.clip, increment⟩, c)
  if !isSpaceGap c.peek then .error .malformed
  else
    let c := c.skipComment
    if isLineEnd c.peek then .ok (header, c.skipBreak) else .error .malformed

/-- The cursor after the spaces that are left of a column. -/
def skipIndent (indent : Nat) (c : Cursor) : Cursor :=
  c.drop (min (c.run (· = ' ')).length (indent - c.column))

/-- The line ends of empty lines, and the cursor at the next line with text. -/
def blockBreaks (indent : Nat) : (fuel : Nat) → Cursor → List Char × Cursor
  | 0, c => ([], c)
  | fuel + 1, c =>
    let c := skipIndent indent c
    match c.lineBreak? with
    | none => ([], c)
    | some b =>
      let (more, after) := blockBreaks indent fuel c.next
      (b :: more, after)

/-- The line ends in front of the first line with text, and the widest indentation of a line on the
way there. -/
def leadingBreaks : (fuel : Nat) → (widest : Nat) → Cursor → List Char × Nat × Cursor
  | 0, widest, c => ([], widest, c)
  | fuel + 1, widest, c =>
    match c.lineBreak? with
    | some b =>
      let (more, widest, after) := leadingBreaks fuel widest c.next
      (b :: more, widest, after)
    | none =>
      if c.peek = some ' ' then leadingBreaks fuel (max widest c.next.column) c.next
      else ([], widest, c)

/-- The lines of a block scalar, the end of the last one, and the line ends after that. -/
structure BlockLines where
  text : List Char
  lastBreak : List Char
  trailing : List Char
  cursor : Cursor

/-- Whether what comes next is a space or a tab. -/
def startsBlank (c : Option Char) : Bool := c = some ' ' || c = some '\t'

/-- Reads lines of one indentation; `breaks` are the line ends in front of the next one. -/
def blockLines (folded : Bool) (indent : Nat) :
    (fuel : Nat) → (breaks : List Char) → Cursor → BlockLines
  | 0, breaks, c => ⟨[], [], breaks, c⟩
  | fuel + 1, breaks, c =>
    if c.column ≠ indent ∨ c.peek = none then ⟨[], [], breaks, c⟩
    else
      let line := c.run (!isBreak ·)
      let atEnd := c.drop line.length
      let lineEnd := atEnd.lineBreak?
      let (more, after) := blockBreaks indent (atEnd.rest.length + 1) atEnd.skipBreak
      if after.column ≠ indent ∨ after.peek = none then
        ⟨breaks ++ line, lineEnd.toList, more, after⟩
      else
        let folds := folded && lineEnd = some '\n' && !startsBlank c.peek && !startsBlank after.peek
        let joint :=
          if !folds then lineEnd.toList
          else if more.isEmpty then [' ']
          else []
        let rest := blockLines folded indent fuel more after
        { rest with text := breaks ++ line ++ joint ++ rest.text }

/-- Reads a block scalar from its mark on, inside a block of this indentation. -/
def readBlock (folded : Bool) (blockIndent : Int) (c : Cursor) :
    Except Error (List Char × Cursor) := do
  let (header, c) ← readBlockHeader c.next
  let least := max 1 (blockIndent + 1).toNat
  let fuel := c.rest.length + 1
  let (indent, breaks, c) := match header.increment with
    | some increment =>
      let indent := least + increment - 1
      let (breaks, c) := blockBreaks indent fuel c
      (indent, breaks, c)
    | none =>
      let (breaks, widest, c) := leadingBreaks fuel 0 c
      (max least widest, breaks, c)
  let lines := blockLines folded indent fuel breaks c
  let ending := match header.chomping with
    | .strip => []
    | .clip => lines.lastBreak
    | .keep => lines.lastBreak ++ lines.trailing
  .ok (lines.text ++ ending, lines.cursor)

end SchemaForms.Yaml
