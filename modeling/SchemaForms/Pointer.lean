/-!
# JSON Pointers

`pointer` renders a path of tokens as one text: a slash before every token, and inside a token `~0`
for a tilde and `~1` for a slash. Different paths have different pointers.
-/

namespace SchemaForms

/-- How one character of a token is written. -/
def pointerChar (c : Char) : List Char :=
  if c = '~' then ['~', '0'] else if c = '/' then ['~', '1'] else [c]

/-- One token behind its slash. -/
def pointerToken (token : String) : List Char :=
  '/' :: token.toList.flatMap pointerChar

/-- The pointer of a path; the empty path has the empty pointer. -/
def pointer (path : List String) : String :=
  String.ofList (path.flatMap pointerToken)

end SchemaForms
