/-!
# Line ends

`unifyLines` writes every line end as a line feed: a carriage return with a line feed behind it is
one line end, and so is one that stands alone.
-/

namespace SchemaForms.Text

/-- The text with every line end written as a line feed. -/
def unifyLines : List Char → List Char
  | [] => []
  | '\r' :: '\n' :: rest => '\n' :: unifyLines rest
  | '\r' :: rest => '\n' :: unifyLines rest
  | c :: rest => c :: unifyLines rest

end SchemaForms.Text
