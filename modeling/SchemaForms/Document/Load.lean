import SchemaForms.Document.Files
import SchemaForms.Json.Reader
import SchemaForms.Run.Basic
import SchemaForms.Schema.Shape
import SchemaForms.Yaml.Reader

/-!
# Documents in files

A document is YAML if the suffix of its path says so, in any mix of cases, and JSON otherwise.
-/

namespace SchemaForms

/-- Whether the document at a path is YAML. -/
def Path.isYaml (p : Path) : Bool :=
  [".yaml", ".yml"].contains (String.ofList (p.suffix.toList.map Char.toLower))

/-- The document at a path. -/
def loadDocument (files : Files) (path : Path) : Run Value := do
  match files.find? path with
  | none => Run.fail (.notFound path)
  | some content =>
    let text ← Run.ofExcept content.decode .undecodable
    Run.tell (.loading path text.length)
    if path.isYaml then Run.ofExcept (Yaml.readWith files.halves text) (.yaml text)
    else Run.ofExcept (Json.readWith files.halves text) .json

/-- The schema at a path; whether it is correct is not looked at. -/
def loadSchema (files : Files) (path : Path) : Run Schema := do
  let document ← loadDocument files path
  Run.ofExcept (Schema.decode document) fun fault => .schema (.malformed fault)

end SchemaForms
