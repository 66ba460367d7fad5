import SchemaForms.Yaml.Graph.Merge
import SchemaForms.Yaml.Scalar.Meaning
import SchemaForms.Yaml.Store

/-!
# The value of a document

The tag of a node says what it stands for: a scalar by its text, a sequence or a mapping by its
parts. Mappings become objects, so their keys have to be strings; what JSON cannot express becomes a
foreign leaf.

A document can have several faults, and the one that is told depends on the order in which nodes are
read. An object is read with everything in it. A list that is in no object is a part of others first
and is filled later, when everything around it is read; so such lists are filled level by level, and
one may be a part of itself. A node is read once, however often it is a part of others, and one that
is needed again while it is being read is at fault.
-/

namespace SchemaForms.Yaml

/-- What a tag promises. -/
inductive Sense where
  | null
  | bool
  | int
  | float
  | binary
  | timestamp
  | str
  | seq
  | map
  | set
  | orderedMap
  | pairs
  deriving DecidableEq, Repr

namespace Sense

/-- The tags that have a meaning. -/
def names : List (String × Sense) :=
  [("null", null), ("bool", bool), ("int", int), ("float", float), ("binary", binary),
    ("timestamp", timestamp), ("str", str), ("seq", seq), ("map", map), ("set", set),
    ("omap", orderedMap), ("pairs", pairs)]

/-- What a full tag promises. -/
def ofTag? (tag : String) : Option Sense :=
  (names.find? fun (name, _) => coreTag name = tag).map (·.2)

end Sense

/-- A list or a set that is still to be filled from a node. -/
structure Unfilled where
  sense : Sense
  node : Nat
  container : Nat

/-- A document as far as it is put together. -/
structure Work where
  graph : Graph
  store : Store
  /-- What the nodes that were read have come to, by their numbers. -/
  done : Array (Option Part)
  /-- The nodes that are being read, the innermost first. -/
  underway : List Nat
  waiting : List Unfilled

/-- A step in putting a document together. -/
abbrev Making := StateT Work (Except Error)

namespace Making

/-- The node of a number. -/
def node (n : Nat) : Making Node := return (← get).graph.node n

/-- Fails with a fault of the node at `place`, told with the place of the node around it. -/
def fail {α : Type} (fault : NodeFault) (place context : Mark) : Making α :=
  throw (.node fault place context)

/-- Adds a container to the store. -/
def allocate (c : Container) : Making Nat := do
  let n := (← get).store.size
  modify fun w => { w with store := w.store.push c }
  return n

/-- Changes what a container holds. -/
def refill (n : Nat) (c : Container) : Making Unit :=
  modify fun w => { w with store := w.store.setIfInBounds n c }

/-- Adds a part to a list. -/
def append (n : Nat) (part : Part) : Making Unit := do
  refill n (.list (((← get).store.container n).parts ++ [part]))

/-- A container as a part: its value, if that is complete. -/
def settled (n : Nat) : Making Part := do
  match ((← get).store.container n).complete? with
  | some v => return .value v
  | none => return .container n

/-- The pairs of a mapping with all merges carried out. -/
def mergedPairs (n : Nat) : Making (List (Nat × Nat)) := do
  let graph ← (← get).graph.merged n
  modify fun w => { w with graph }
  return (graph.node n).pairs

/-! ## Scalars -/

/-- The value of a node under one of the scalar tags. -/
def scalar (sense : Sense) (n : Nat) : Making Value := do
  let graph := (← get).graph
  let node := graph.node n
  let text ← graph.text (graph.size + 1) n
  match sense with
  | .null => return .null
  | .bool => return .bool (← Meaning.truth text)
  | .int => return .int (← Meaning.integer text)
  | .float => return .number (.double (← Meaning.double text))
  | .binary => return .foreign (← Meaning.octets text node.place)
  | .timestamp =>
    if node.kind = .mapping then throw .notADateText
    return .foreign (← Moment.read text)
  | _ => return .string text

/-! ## Objects -/

/-- The text of a key, which has to be a string. -/
def stringKey (mapping key : Mark) (part : Part) : Making String := do
  match part with
  | .value (.string text) => return text
  | part =>
    let shown := (← get).store.value part
    if shown.isShowable then fail (.nonStringKey shown.display) key mapping
    else throw .tooLongToShow

/-- The object of a mapping whose parts are read by `make`. -/
def object (make : Nat → Making Part) (n : Nat) : Making Part := do
  let node ← node n
  match node.content with
  | .scalar text => if text = "" then return .value (.object []) else throw .shortPair
  | .sequence [] => return .value (.object [])
  | .sequence (first :: _) => throw (.notPairs (← Making.node first).kind)
  | .mapping _ =>
    let pairs ← mergedPairs n
    let members ← pairs.foldlM (fun members (key, value) => do
      let name ← stringKey node.place (← Making.node key).place (← make key)
      return insertMember name (← make value) members) []
    match (Container.object members).complete? with
    | some v => return .value v
    | none => return .container (← allocate (.object members))

/-! ## Lists and sets -/

/-- A key of a set, which has to be a scalar. -/
def setKey (mapping key : Mark) (part : Part) : Making Value := do
  match part with
  | .value (.array _) => fail .unhashableKey key mapping
  | .value (.object _) => fail .unhashableKey key mapping
  | .value (.foreign leaf) =>
    if leaf.className = "set" then fail .unhashableKey key mapping
    return .foreign leaf
  | .value v => return v
  | .container _ => fail .unhashableKey key mapping

/-- What is told to be read when a part of a list of pairs is at fault. -/
def pairsContext (sense : Sense) : String :=
  if sense = .orderedMap then "while constructing an ordered map" else "while constructing pairs"

/-- The pair of an item of a list of pairs, which has to be a mapping of one pair. -/
def singlePair (make : Nat → Making Part) (form : String) (list : Mark) (item : Nat) :
    Making Part := do
  let node ← node item
  match node.content with
  | .mapping [(key, value)] =>
    let key ← make key
    let value ← make value
    settled (← allocate (.tuple [key, value]))
  | .mapping pairs => fail (.pairLength form pairs.length) node.place list
  | _ => fail (.pairExpected form node.kind) node.place list

/-- Fills a list or a set with the parts of a node, which are read by `make`. A list of pairs is
filled one by one, the others at once. -/
def fill (make : Nat → Making Part) (u : Unfilled) : Making Unit := do
  let node ← node u.node
  match u.sense, node.content with
  | .seq, .sequence items =>
    let parts ← items.mapM make
    refill u.container (.list parts)
  | .seq, _ => fail (.expected .sequence node.kind) node.place node.place
  | .set, .mapping _ =>
    let pairs ← mergedPairs u.node
    let keys ← pairs.foldlM (fun keys (key, value) => do
      let shown ← setKey node.place (← Making.node key).place (← make key)
      let _ ← make value
      return KeySet.insert keys shown) []
    refill u.container (.set keys)
  | .set, _ => fail (.expected .mapping node.kind) node.place node.place
  | sense, .sequence items =>
    for item in items do
      append u.container (← singlePair make (pairsContext sense) node.place item)
  | sense, _ => fail (.sequenceExpected (pairsContext sense) node.kind) node.place node.place

/-- A list or a set: filled at once if it is in an object, and left to be filled later if not. -/
def collection (make : Nat → Making Part) (inObject : Bool) (sense : Sense) (n : Nat) :
    Making Part := do
  let container ← allocate (if sense = .set then .set [] else .list [])
  let unfilled : Unfilled := ⟨sense, n, container⟩
  if inObject then
    fill make unfilled
    settled container
  else
    modify fun w => { w with waiting := w.waiting ++ [unfilled] }
    return .container container

/-! ## Documents -/

/-- What a node comes to. A node that is underway is not entered again, so the number of nodes is
fuel enough. -/
def part : (fuel : Nat) → (inObject : Bool) → Nat → Making Part
  | 0, _, _ => throw .endless
  | fuel + 1, inObject, n => do
    let w ← get
    match w.done.getD n none with
    | some part => return part
    | none =>
      let node := w.graph.node n
      if w.underway.contains n then fail .recursive node.place node.place
      set { w with underway := n :: w.underway }
      let found ← match Sense.ofTag? node.tag with
        | none => fail (.unknownTag node.tag) node.place node.place
        | some .map => object (part fuel true) n
        | some sense =>
          if [.seq, .set, .orderedMap, .pairs].contains sense then
            collection (part fuel inObject) inObject sense n
          else Part.value <$> scalar sense n
      modify fun w => { w with
        done := w.done.setIfInBounds n (some found)
        underway := w.underway.erase n }
      return found

/-- Fills what is waiting, then what that leaves waiting, and so on. -/
def fillWaiting (fuel : Nat) : (rounds : Nat) → Making Unit
  | 0 => return ()
  | rounds + 1 => do
    let waiting := (← get).waiting
    if waiting.isEmpty then return ()
    modify fun w => { w with waiting := [] }
    waiting.forM (fill (part fuel false))
    fillWaiting fuel rounds

/-- The value of a document. -/
def document (root : Nat) : Making Value := do
  let size := (← get).graph.size
  let found ← part (size + 1) false root
  fillWaiting (size + 1) (size + 1)
  return (← get).store.value found

end Making

/-- The value of a document whose outermost node is `root`. -/
def Graph.value (g : Graph) (root : Nat) : Except Error Value := do
  let (v, _) ← (Making.document root).run ⟨g, #[], Array.replicate g.size none, [], []⟩
  return v

end SchemaForms.Yaml
