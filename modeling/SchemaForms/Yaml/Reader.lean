import SchemaForms.Yaml.Construction
import SchemaForms.Yaml.Graph.Reading

/-!
# Reading YAML

`Yaml.readWith` reads a text that holds at most one document; a text without one is null.
-/

namespace SchemaForms.Yaml

/-- The value of the only document in a text. -/
def readWith (halves : Text.Halves) (text : String) : Except Error Value := do
  match ← Graph.ofTokens (tokens halves text.toList) with
  | none => .ok .null
  | some (graph, root) => graph.value root

end SchemaForms.Yaml
