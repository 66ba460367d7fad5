import SchemaForms.Text.Hex
import SchemaForms.Text.Printable

/-!
# Quoted text

`quoted` writes a text between quote marks so that every character of the result is printable and
no two texts are written alike. The single quote is the usual mark; a text that holds a single
quote and no double one is written between double ones, so that the quote inside stays bare.
-/

namespace SchemaForms.Text

/-- The mark that a text is written between. -/
def quoteMark (cs : List Char) : Char :=
  if cs.contains '\x27' && !cs.contains '\x22' then '\x22' else '\x27'

/-- A backslash, a letter for the width, and the code point in lower-case hexadecimal. -/
def numericEscape (n : Nat) : List Char :=
  if n < 0x100 then '\\' :: 'x' :: hexPadded 2 n
  else if n < 0x10000 then '\\' :: 'u' :: hexPadded 4 n
  else '\\' :: 'U' :: hexPadded 8 n

/-- How one character is written between two marks. -/
def quotedChar (mark c : Char) : List Char :=
  if c = mark ∨ c = '\\' then ['\\', c]
  else if c = '\n' then ['\\', 'n']
  else if c = '\r' then ['\\', 'r']
  else if c = '\t' then ['\\', 't']
  else if isPrintable c then [c]
  else numericEscape c.toNat

/-- A text between quote marks, as characters. -/
def quotedChars (cs : List Char) : List Char :=
  let mark := quoteMark cs
  mark :: (cs.flatMap (quotedChar mark) ++ [mark])

/-- A text between quote marks. -/
def quoted (s : String) : String :=
  String.ofList (quotedChars s.toList)

/-- How one octet is written between two marks: as the ASCII character it stands for if that is
printable, else by its number. -/
def quotedOctet (mark : Char) (b : UInt8) : List Char :=
  let c := Char.ofNat b.toNat
  if b.toNat < 0x7F then quotedChar mark c else numericEscape b.toNat

/-- Octets between quote marks, under the letter `b`. -/
def quotedOctets (bytes : List UInt8) : String :=
  let mark := quoteMark (bytes.map fun b => Char.ofNat b.toNat)
  String.ofList ('b' :: mark :: (bytes.flatMap (quotedOctet mark) ++ [mark]))

end SchemaForms.Text
