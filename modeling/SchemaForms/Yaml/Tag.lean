import SchemaForms.Text.Utf8
import SchemaForms.Yaml.Fault
import SchemaForms.Yaml.Token

/-!
# Names, tags and directives

The pieces of a YAML text that are made of words: the names of anchors and aliases, tags with their
handles, and the directives in front of a document.
-/

namespace SchemaForms.Yaml

open SchemaForms.Text (hexNumber?)

/-- Whether `c` may stand in a name: a letter or a digit of ASCII, a hyphen or an underscore. -/
def isNameChar (c : Char) : Bool := c.isAlphanum || c = '-' || c = '_'

/-- The cursor behind a run of characters, with the run; an empty run is malformed. -/
def nonEmptyRun (c : Cursor) (p : Char → Bool) : Except Error (List Char × Cursor) :=
  let run := c.run p
  if run.isEmpty then .error .malformed else .ok (run, c.drop run.length)

/-- The cursor, if a condition on it holds. -/
def demand (condition : Bool) (c : Cursor) : Except Error Cursor :=
  if condition then .ok c else .error .malformed

/-- Reads the name behind the mark of an anchor or an alias. -/
def readName (c : Cursor) : Except Error (String × Cursor) := do
  let (name, c) ← nonEmptyRun c.next isNameChar
  let c ← demand (isGap c.peek || c.peek.any ("?:,]\x7d%@\x60".toList.contains ·)) c
  .ok (String.ofList name, c)

/-! ## Tags -/

/-- Whether `c` may stand in a tag. -/
def isTagChar (c : Char) : Bool :=
  c.isAlphanum || "-;/?:@&=+$,_.!~*\x27()[]%".toList.contains c

/-- The octets of escapes such as `%C3%A9` that follow one another. -/
def readOctets : (fuel : Nat) → Cursor → Except Error (List UInt8 × Cursor)
  | 0, c => .ok ([], c)
  | fuel + 1, c =>
    match c.rest with
    | '%' :: a :: b :: _ => do
      match hexNumber? [a, b] with
      | none => .error .malformed
      | some n =>
        let (more, after) ← readOctets fuel (c.drop 3)
        .ok (UInt8.ofNat n :: more, after)
    | '%' :: _ => .error .malformed
    | _ => .ok ([], c)

/-- The characters of a tag, with its escapes resolved. -/
def readTagChars : (fuel : Nat) → Cursor → Except Error (List Char × Cursor)
  | 0, c => .ok ([], c)
  | fuel + 1, c =>
    match c.peek with
    | none => .ok ([], c)
    | some ch => do
      if ch = '%' then
        let (octets, c) ← readOctets fuel c
        let text ← (Text.utf8Decode octets).mapError fun _ => Error.malformed
        let (more, c) ← readTagChars fuel c
        .ok (text.toList ++ more, c)
      else if isTagChar ch then
        let (more, c) ← readTagChars fuel c.next
        .ok (ch :: more, c)
      else .ok ([], c)

/-- Reads the characters of a tag, of which there has to be one. -/
def readTagText (c : Cursor) : Except Error (String × Cursor) := do
  let c ← demand (c.peek.any isTagChar) c
  let (text, c) ← readTagChars (c.rest.length + 1) c
  .ok (String.ofList text, c)

/-- Reads a handle: an exclamation mark that stands alone in front of a space, or a name between two
of them, which may be empty. -/
def readHandle (c : Cursor) : Except Error (String × Cursor) := do
  let c ← demand (c.peek = some '!') c
  let name := c.next.run isNameChar
  if c.next.peek = some ' ' then .ok ("!", c.next)
  else
    let closing ← demand ((c.next.drop name.length).peek = some '!') (c.next.drop name.length)
    .ok (String.ofList ('!' :: name ++ ['!']), closing.next)

/-- Reads a tag from its exclamation mark on. -/
def readTag (c : Cursor) : Except Error (TokenKind × Cursor) := do
  let (kind, c) ←
    if c.next.peek = some '<' then do
      let (text, c) ← readTagText (c.drop 2)
      let c ← demand (c.peek = some '>') c
      .ok (TokenKind.tag none text, c.next)
    else if isGap c.next.peek then .ok (TokenKind.tag none "!", c.next)
    else do
      let word := c.next.run fun ch => !(ch = ' ' || isBreak ch)
      let (handle, c) ← if word.contains '!' then readHandle c else .ok ("!", c.next)
      let (suffix, c) ← readTagText c
      .ok (TokenKind.tag (some handle) suffix, c)
  let c ← demand (isSpaceGap c.peek) c
  .ok (kind, c)

/-! ## Directives -/

/-- The number that digits of ASCII write. -/
def readDigits (c : Cursor) : Except Error (Nat × Cursor) := do
  let (digits, c) ← nonEmptyRun c fun ch => '0' ≤ ch && ch ≤ '9'
  if Number.digitLimit < digits.length then .error (.integerTooLong digits.length)
  else .ok (Number.digitsValue 10 digits, c)

/-- Reads the two numbers of a version. -/
def readVersion (c : Cursor) : Except Error (Directive × Cursor) := do
  let (major, c) ← readDigits c
  let c ← demand (c.peek = some '.') c
  let (_, c) ← readDigits c.next
  let c ← demand (isSpaceGap c.peek) c
  .ok (.version major, c)

/-- Reads a handle and the text that it stands for. -/
def readTagDirective (c : Cursor) : Except Error (Directive × Cursor) := do
  let (handle, c) ← readHandle c
  let c ← demand (c.peek = some ' ') c
  let (stem, c) ← readTagText (c.skip (· = ' '))
  let c ← demand (isSpaceGap c.peek) c
  .ok (.tag handle stem, c)

/-- Reads a directive from its percent sign on, up to the end of its line. -/
def readDirective (c : Cursor) : Except Error (TokenKind × Cursor) := do
  let (name, c) ← nonEmptyRun c.next isNameChar
  let c ← demand (isSpaceGap c.peek) c
  let value := c.skip (· = ' ')
  let (directive, c) ←
    if name = "YAML".toList then readVersion value
    else if name = "TAG".toList then readTagDirective value
    else .ok (.other, c.skip (!isBreak ·))
  let c := c.skipComment
  let c ← demand (isLineEnd c.peek) c
  .ok (.directive directive, c.skipBreak)

end SchemaForms.Yaml
