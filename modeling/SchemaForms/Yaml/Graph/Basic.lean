import SchemaForms.Yaml.Fault
import SchemaForms.Yaml.PlainTag

/-!
# The nodes of a YAML document

A document is a graph of nodes: scalars, sequences and mappings, each with its tag and the place
where it starts. Nodes have numbers, and a sequence or a mapping names its parts by theirs. An alias
is no node of its own: it is the number of the node that its anchor names, so a node can be a part
of several others, and of itself.
-/

namespace SchemaForms.Yaml

/-- What a node holds; parts are named by their numbers. -/
inductive Content where
  | scalar (text : String)
  | sequence (items : List Nat)
  | mapping (pairs : List (Nat × Nat))
  deriving DecidableEq, Repr

/-- The kind of a node that holds this. -/
def Content.kind : Content → NodeKind
  | scalar _ => .scalar
  | sequence _ => .sequence
  | mapping _ => .mapping

/-- A node of a document. -/
structure Node where
  tag : String
  content : Content
  /-- Where the node starts. -/
  place : Mark
  deriving DecidableEq, Repr

namespace Node

/-- The kind of a node. -/
def kind (node : Node) : NodeKind := node.content.kind

/-- The pairs of a mapping. -/
def pairs (node : Node) : List (Nat × Nat) :=
  match node.content with
  | .mapping pairs => pairs
  | _ => []

/-- Whether a key with this node asks for the pairs of its value. -/
def isMerge (node : Node) : Bool := node.tag = coreTag "merge"

/-- Whether a node is tagged as the value of the mapping whose key it is. -/
def isValueKey (node : Node) : Bool := node.tag = coreTag "value"

/-- The empty scalar at a place. -/
def empty (place : Mark) : Node := ⟨Plain.tag "", .scalar "", place⟩

end Node

/-- The nodes of a document by their numbers. -/
abbrev Graph := Array Node

namespace Graph

/-- The node of a number. -/
def node (g : Graph) (n : Nat) : Node := g.getD n (.empty .start)

/-- The graph with other content in a node. -/
def setContent (g : Graph) (n : Nat) (content : Content) : Graph :=
  g.modify n fun node => { node with content }

/-- The graph with other pairs in a mapping. -/
def setPairs (g : Graph) (n : Nat) (pairs : List (Nat × Nat)) : Graph :=
  g.setContent n (.mapping pairs)

/-- The text of a scalar, or of the value in the pair of a mapping whose key is tagged as its value.
Such mappings may lead in a circle, so the number of steps is bounded by `fuel`. -/
def text (g : Graph) : (fuel : Nat) → Nat → Except Error String
  | 0, _ => .error .endless
  | fuel + 1, n =>
    let node := g.node n
    let unexpected : Except Error String :=
      .error (.node (.expected .scalar node.kind) node.place node.place)
    match node.content with
    | .scalar text => .ok text
    | .sequence _ => unexpected
    | .mapping pairs =>
      match pairs.find? fun (key, _) => (g.node key).isValueKey with
      | some (_, value) => text g fuel value
      | none => unexpected

end Graph

end SchemaForms.Yaml
