/-!
# Surrogates

A character beyond U+FFFF may be written as two code units of 16 bits, a high surrogate and a low
one. Half a pair is no character, and no text here can hold one. A text that is read may write one
by an escape all the same; what then stands in its place is left open (`Halves`), so nothing that is
said for every choice of it depends on it.
-/

namespace SchemaForms.Text

/-- Whether a code unit is the first half of a surrogate pair. -/
def isHighSurrogate (n : Nat) : Bool := 0xD800 ≤ n && n < 0xDC00

/-- Whether a code unit is the second half of a surrogate pair. -/
def isLowSurrogate (n : Nat) : Bool := 0xDC00 ≤ n && n < 0xE000

/-- The character of a pair of surrogates. -/
def joinSurrogates (high low : Nat) : Char :=
  Char.ofNat (0x10000 + (high - 0xD800) * 0x400 + (low - 0xDC00))

/-- What stands for each code unit that is half a surrogate pair. -/
abbrev Halves := Nat → Char

/-- The replacement character, U+FFFD, for every half of a pair. -/
def Halves.replaced : Halves := fun _ => '\ufffd'

/-- The character of a code unit that stands alone. -/
def loneUnit (halves : Halves) (n : Nat) : Char :=
  if isHighSurrogate n || isLowSurrogate n then halves n else Char.ofNat n

end SchemaForms.Text
