import SchemaForms.Text.Hex
import SchemaForms.Text.Surrogate
import SchemaForms.Yaml.Fault

/-!
# Quoted scalars

Between single quotes a quote is written twice and everything else stands for itself; between double
quotes a backslash starts an escape. Lines are joined as in plain scalars, and a backslash at the
end of a line joins it to the next one without a space.
-/

namespace SchemaForms.Yaml

open SchemaForms.Text (Halves hexNumber? loneUnit)

/-- The character that a letter after a backslash stands for. -/
def escapeChar? (letter : Char) : Option Char :=
  match letter with
  | '0' => some '\x00'
  | 'a' => some '\x07'
  | 'b' => some '\x08'
  | 't' => some '\t'
  | '\t' => some '\t'
  | 'n' => some '\n'
  | 'v' => some '\x0b'
  | 'f' => some '\x0c'
  | 'r' => some '\r'
  | 'e' => some '\x1b'
  | ' ' => some ' '
  | '\x22' => some '\x22'
  | '\\' => some '\\'
  | '/' => some '/'
  | 'N' => some '\x85'
  | '_' => some '\xa0'
  | 'L' => some '\u2028'
  | 'P' => some '\u2029'
  | _ => none

/-- How many hexadecimal digits a letter after a backslash asks for. -/
def escapeWidth? (letter : Char) : Option Nat :=
  match letter with
  | 'x' => some 2
  | 'u' => some 4
  | 'U' => some 8
  | _ => none

/-- The line ends and the indentation at the start of a line inside quotes. -/
def quotedBreaks : (fuel : Nat) → Cursor → Except Error (List Char × Cursor)
  | 0, _ => .error .malformed
  | fuel + 1, c =>
    if c.atSeparator then .error .malformed
    else
      let c := c.skip fun ch => ch = ' ' || ch = '\t'
      match c.lineBreak? with
      | none => .ok ([], c)
      | some b => do
        let (more, after) ← quotedBreaks fuel c.next
        .ok (b :: more, after)

/-- The white space between two words inside quotes, as it is kept. -/
def quotedGap (c : Cursor) : Except Error (List Char × Cursor) :=
  let spaces := c.run fun ch => ch = ' ' || ch = '\t'
  let c := c.drop spaces.length
  match c.peek, c.lineBreak? with
  | none, _ => .error .malformed
  | some _, none => .ok (spaces, c)
  | some _, some first => do
    let (more, after) ← quotedBreaks (c.rest.length + 1) c.next
    .ok (joinLines first more, after)

section halves
variable (halves : Halves)

/-- The character of a number in an escape. Two escapes in a row are never one character. -/
def escapedNumber (n : Nat) : Except Error Char :=
  if 0x10FFFF < n then .error (.noSuchCharacter n) else .ok (loneUnit halves n)

/-- What stands behind a backslash between double quotes. -/
def readEscape (c : Cursor) : Except Error (List Char × Cursor) :=
  match c.peek with
  | none => .error .malformed
  | some letter =>
    match escapeChar? letter, escapeWidth? letter with
    | some ch, _ => .ok ([ch], c.next)
    | none, some width =>
      let digits := c.next.rest.take width
      if digits.length < width then .error .malformed
      else match hexNumber? digits with
        | none => .error .malformed
        | some n => do
          let ch ← escapedNumber halves n
          .ok ([ch], c.next.drop width)
    | none, none =>
      if isBreak letter then quotedBreaks (c.rest.length + 1) c.next else .error .malformed

/-- The characters inside quotes up to the next blank or the closing quote. -/
def quotedWord (double : Bool) : (fuel : Nat) → Cursor → Except Error (List Char × Cursor)
  | 0, c => .ok ([], c)
  | fuel + 1, c =>
    match c.rest with
    | [] => .ok ([], c)
    | ch :: rest => do
      if isBlank ch || double && ch = '\x22' then .ok ([], c)
      else if !double && ch = '\x27' then
        if rest.head? = some '\x27' then
          let (more, after) ← quotedWord double fuel (c.drop 2)
          .ok ('\x27' :: more, after)
        else .ok ([], c)
      else if double && ch = '\\' then
        let (escape, after) ← readEscape halves c.next
        let (more, after) ← quotedWord double fuel after
        .ok (escape ++ more, after)
      else
        let (more, after) ← quotedWord double fuel c.next
        .ok (ch :: more, after)

/-- The text inside quotes up to and with the closing quote. -/
def quotedWords (double : Bool) : (fuel : Nat) → Cursor → Except Error (List Char × Cursor)
  | 0, _ => .error .malformed
  | fuel + 1, c => do
    let (word, c) ← quotedWord halves double (c.rest.length + 1) c
    if c.peek = some (if double then '\x22' else '\x27') then .ok (word, c.next)
    else
      let (gap, c) ← quotedGap c
      let (more, c) ← quotedWords double fuel c
      .ok (word ++ gap ++ more, c)

/-- Reads a quoted scalar from its opening quote on. -/
def readQuoted (double : Bool) (c : Cursor) : Except Error (List Char × Cursor) :=
  quotedWords halves double (c.rest.length + 1) c.next

end halves

end SchemaForms.Yaml
