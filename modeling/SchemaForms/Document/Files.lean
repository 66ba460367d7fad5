import SchemaForms.Document.Path
import SchemaForms.Text.Lines
import SchemaForms.Text.Surrogate
import SchemaForms.Text.Utf8

/-!
# Files

`Files` says what a path leads to, and what a text that is read there holds in place of half a
surrogate pair. `Files.ofTree` serves the files of one directory from a list of names: a name is a
path from that directory, and one that ends with a slash is a directory without files. Nothing
outside the directory can be reached.
-/

namespace SchemaForms

/-- The content of a file: a text, or the octets that should encode one. -/
inductive Content where
  | text (s : String)
  | octets (bytes : List UInt8)

/-- The text of a content, in which every line end is a line feed. -/
def Content.decode (content : Content) : Except Text.Utf8Fault String := do
  let text ← match content with
    | text s => .ok s
    | octets bytes => Text.utf8Decode bytes
  .ok (String.ofList (Text.unifyLines text.toList))

/-- What paths lead to: the content of a file, or nothing. -/
structure Files where
  find? : Path → Option Content
  /-- What stands for half a surrogate pair in what is read. -/
  halves : Text.Halves := .replaced

namespace Files

/-- A named file or, without content, a directory. -/
structure Entry where
  parts : List String
  content : Option Content

/-- The entry of a name. -/
def Entry.ofName (name : String) (content : Content) : Entry :=
  ⟨(Path.ofString name).parts, if name.toList.getLast? = some '/' then none else some content⟩

/-- Whether a place is a directory: some entry lies below it, or it is an entry without content. -/
def isDirectory (entries : List Entry) (place : List String) : Bool :=
  entries.any fun e =>
    place.isPrefixOf e.parts && (e.content.isNone || place.length < e.parts.length)

/-- The place that the parts of a path lead to from a directory. Every part but the last has to be
a directory. -/
def resolve? (entries : List Entry) (here : List String) : List String → Option (List String)
  | [] => some here
  | ".." :: rest => if here = [] then none else resolve? entries here.dropLast rest
  | [name] => some (here ++ [name])
  | name :: rest =>
    if isDirectory entries (here ++ [name]) then resolve? entries (here ++ [name]) rest else none

/-- The files of a directory, by name. -/
def ofTree (tree : List (String × Content)) : Files :=
  let entries := tree.map fun (name, content) => Entry.ofName name content
  { find? path :=
      if path.slashes ≠ 0 then none
      else do
        let place ← resolve? entries [] path.parts
        let entry ← entries.find? fun e => e.parts = place && e.content.isSome
        entry.content }

end Files

end SchemaForms
