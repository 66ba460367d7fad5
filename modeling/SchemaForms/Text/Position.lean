/-!
# Places in a text

An offset counts characters from the start of a text. `lineAndColumn` turns it into a line and a
column, both counted from one; only a line feed ends a line here.
-/

namespace SchemaForms.Text

/-- The line and the column of an offset, counted from one. -/
def lineAndColumn (cs : List Char) (offset : Nat) : Nat × Nat :=
  let before := cs.take offset
  let sinceBreak := before.reverse.takeWhile (· ≠ '\n')
  (before.count '\n' + 1, sinceBreak.length + 1)

end SchemaForms.Text
