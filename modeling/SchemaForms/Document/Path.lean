/-!
# Paths of files

A `Path` is a path of a file system with slashes, taken apart: repeated slashes and the part `.`
say nothing and are dropped, `..` stays, and a path may start at the root. Two slashes in front are
a root of their own; three or more are the usual one.
-/

namespace SchemaForms

/-- A path without parts that say nothing. -/
structure Path where
  /-- The slashes in front: none, one, or two. -/
  slashes : Nat
  parts : List String
  deriving DecidableEq, Repr

namespace Path

/-- The parts of a text between slashes; `part` has the current one, last character first. -/
def splitSlashes (part : List Char) : List Char → List (List Char)
  | [] => [part.reverse]
  | '/' :: rest => part.reverse :: splitSlashes [] rest
  | c :: rest => splitSlashes (c :: part) rest

/-- The path that a text writes. -/
def ofString (text : String) : Path :=
  let cs := text.toList
  let leading := (cs.takeWhile (· = '/')).length
  let parts := ((splitSlashes [] cs).map String.ofList).filter fun part => part ≠ "" && part ≠ "."
  ⟨if leading ≤ 2 then leading else 1, parts⟩

/-- The text of a path; the path without parts is written `.`. -/
def toString (p : Path) : String :=
  if p.slashes = 0 ∧ p.parts = [] then "."
  else String.ofList (List.replicate p.slashes '/') ++ "/".intercalate p.parts

/-- The suffix of the last part from its last point on. A point in front of the name or at its end
starts no suffix. -/
def suffix (p : Path) : String :=
  match p.parts.getLast? with
  | none => ""
  | some name =>
    let cs := name.toList
    let ending := (cs.reverse.takeWhile (· ≠ '.')).reverse
    if ending = [] ∨ cs.length ≤ ending.length + 1 then ""
    else String.ofList ('.' :: ending)

end Path

end SchemaForms
