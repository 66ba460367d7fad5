import SchemaForms.Yaml.Graph.Basic

/-!
# Merging mappings

A pair whose key is tagged as a merge asks for the pairs of another mapping, or of several. They are
put in front, so that among equal keys the own one counts; of several mappings the last one comes
first, so that of those the one listed first counts. What is merged is merged into itself before.

A mapping may merge one that is being merged into it. The latter is then finished first, as far as
it has merges left, so nothing goes in a circle: every merge is taken out of the graph before it is
carried out.
-/

namespace SchemaForms.Yaml.Graph

/-- How many merges a graph asks for. -/
def mergeCount (g : Graph) : Nat :=
  (g.toList.map fun node => node.pairs.countP fun (key, _) => (g.node key).isMerge).foldl (· + ·) 0

/-- The source of the first merge in a mapping, and the graph without that merge. -/
def takeMerge? (g : Graph) (n : Nat) : Option (Nat × Graph) :=
  let isOwn (pair : Nat × Nat) : Bool := !(g.node pair.1).isMerge
  let pairs := (g.node n).pairs
  match pairs.dropWhile isOwn with
  | [] => none
  | (_, source) :: rest => some (source, g.setPairs n (pairs.takeWhile isOwn ++ rest))

/-- The nodes that a merge into `n` brings in: a mapping, or the items of a sequence. -/
def mergeSources (g : Graph) (n source : Nat) : Except Error (List Nat) :=
  let node := g.node source
  match node.content with
  | .mapping _ => .ok [source]
  | .sequence items => .ok items
  | .scalar _ => .error (.node (.mergeOfMany .scalar) node.place (g.node n).place)

/-- What a merge into `n` brings in has to be a mapping. -/
def demandMapping (g : Graph) (n source : Nat) : Except Error Unit :=
  let node := g.node source
  match node.content with
  | .mapping _ => .ok ()
  | _ => .error (.node (.mergeOfOther node.kind) node.place (g.node n).place)

/-- Makes the keys of a mapping that are tagged as its value plain strings. -/
def nameValueKeys (g : Graph) (n : Nat) : Graph :=
  (g.node n).pairs.foldl (fun g (key, _) =>
    if (g.node key).isValueKey then g.modify key fun node => { node with tag := coreTag "str" }
    else g) g

/-- Carries out all merges of a mapping. With more `fuel` than the graph has merges, none is left
out. -/
def flatten : (fuel : Nat) → Nat → Graph → Except Error Graph
  | 0, _, g => .ok g
  | fuel + 1, n, g =>
    match g.takeMerge? n with
    | none => .ok (g.nameValueKeys n)
    | some (source, g) => do
      let sources ← g.mergeSources n source
      let (g, brought) ← sources.foldlM (fun (g, brought) source => do
        demandMapping g n source
        let g ← flatten fuel source g
        .ok (g, (g.node source).pairs ++ brought)) (g, [])
      let g ← flatten fuel n g
      .ok (g.setPairs n (brought ++ (g.node n).pairs))

/-- The graph with all merges of a mapping carried out. -/
def merged (g : Graph) (n : Nat) : Except Error Graph := flatten (g.mergeCount + 1) n g

end SchemaForms.Yaml.Graph
