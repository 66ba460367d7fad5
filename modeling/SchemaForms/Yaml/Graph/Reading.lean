import SchemaForms.Yaml.Graph.Basic
import SchemaForms.Yaml.Tokens

/-!
# Reading the nodes of a document

`Graph.ofTokens` builds the graph of the only document in a text from its tokens, from the first to
the last. Tokens are looked at one at a time and no further ahead than needed, so of two faults the
one that is met first is told, whether it lies in a token or in what the tokens say.
-/

namespace SchemaForms.Yaml.Graph

/-- The tokens that are left, the fault behind them, and what was read from those before. -/
structure Progress where
  rest : List Token
  fault : Option Error
  /-- The nodes that anchors name. -/
  anchors : List (String × Nat)
  graph : Graph

/-- A step that reads tokens. -/
abbrev Build := StateT Progress (Except Error)

/-- What the handles of tags stand for. -/
abbrev Handles := List (String × String)

/-- A text that is not a document. -/
def malformed {α : Type} : Build α := throw .malformed

/-- The next token. -/
def peek : Build Token := do
  let p ← get
  match p.rest with
  | token :: _ => return token
  | [] => throw (p.fault.getD .malformed)

/-- Takes the next token. -/
def take : Build Token := do
  let token ← peek
  modify fun p => { p with rest := p.rest.drop 1 }
  return token

/-- Whether the next token is one of some kinds. -/
def next (kinds : List TokenKind) : Build Bool := do
  return kinds.contains (← peek).kind

/-! ## Nodes -/

/-- Adds a node to the graph. -/
def add (node : Node) : Build Nat := do
  let n := (← get).graph.size
  modify fun p => { p with graph := p.graph.push node }
  return n

/-- Adds a node that an anchor may name. No two nodes of a document have one name. -/
def addNamed (anchor : Option String) (node : Node) : Build Nat := do
  match anchor with
  | none => add node
  | some name =>
    if ((← get).anchors.lookup name).isSome then malformed
    let n ← add node
    modify fun p => { p with anchors := (name, n) :: p.anchors }
    return n

/-- Adds the scalar that is not written at a place where a node may be left out. -/
def addEmpty (place : Mark) : Build Nat := add (.empty place)

/-- The node that an alias stands for. -/
def resolve (name : String) : Build Nat := do
  match (← get).anchors.lookup name with
  | none => malformed
  | some n => return n

/-! ## What stands in front of a node -/

/-- What stands in front of the content of a node. -/
structure Properties where
  anchor : Option String
  tag : Option String
  place : Option Mark

/-- The full tag of a handle and a suffix. -/
def fullTag (handles : Handles) (handle : Option String) (suffix : String) : Build String := do
  match handle with
  | none => return suffix
  | some handle =>
    match handles.lookup handle with
    | some stem => return stem ++ suffix
    | none => malformed

/-- Takes an anchor, if one comes next. -/
def takeAnchor : Build (Option (String × Mark)) := do
  let token ← peek
  match token.kind with
  | .anchor name =>
    let _ ← take
    return some (name, token.start)
  | _ => return none

/-- Takes a tag, if one comes next: its handle, its suffix and its place. -/
def takeTag : Build (Option (Option String × String × Mark)) := do
  let token ← peek
  match token.kind with
  | .tag handle suffix =>
    let _ ← take
    return some (handle, suffix, token.start)
  | _ => return none

/-- Takes an anchor and a tag, in either order, where they are there. What the handle of the tag
stands for is looked up when both are read. -/
def takeProperties (handles : Handles) : Build Properties := do
  match ← takeAnchor with
  | some (name, place) =>
    match ← takeTag with
    | none => return ⟨some name, none, some place⟩
    | some (handle, suffix, _) =>
      let tag ← fullTag handles handle suffix
      return ⟨some name, some tag, some place⟩
  | none =>
    match ← takeTag with
    | none => return ⟨none, none, none⟩
    | some (handle, suffix, place) =>
      let anchor ← takeAnchor
      let tag ← fullTag handles handle suffix
      return ⟨anchor.map (·.1), some tag, some place⟩

/-- The tag of a node that may have been given one; the mark `!` counts as none. -/
def tagOr (given : Option String) (default : String) : String :=
  match given with
  | none => default
  | some tag => if tag = "!" then default else tag

/-- The tag of a scalar. The mark `!` asks for the tag of a plain scalar. -/
def scalarTag (given : Option String) (text : String) (plain : Bool) : String :=
  match given with
  | none => if plain then Plain.tag text else coreTag "str"
  | some tag => if tag = "!" then Plain.tag text else tag

/-- Adds the node of a scalar. -/
def addScalar (p : Properties) (place : Mark) (text : String) (plain : Bool) : Build Nat :=
  addNamed p.anchor ⟨scalarTag p.tag text plain, .scalar text, place⟩

/-- Adds a node whose parts are read once it is there, since they may name it. -/
def addCollection (p : Properties) (default : String) (place : Mark) (empty : Content)
    (parts : Build Content) : Build Nat := do
  let n ← addNamed p.anchor ⟨tagOr p.tag default, empty, place⟩
  let content ← parts
  modify fun p => { p with graph := p.graph.setContent n content }
  return n

/-- Adds a sequence. -/
def addSequence (p : Properties) (place : Mark) (items : Build (List Nat)) : Build Nat :=
  addCollection p (coreTag "seq") place (.sequence []) (Content.sequence <$> items)

/-- Adds a mapping. -/
def addMapping (p : Properties) (place : Mark) (pairs : Build (List (Nat × Nat))) : Build Nat :=
  addCollection p (coreTag "map") place (.mapping []) (Content.mapping <$> pairs)

/-! ## Content -/

mutual
/-- Reads a node. In a block, the mark of a block may follow; `indentless` allows the items of a
sequence to stand in the column of the key in front of them. -/
def read (handles : Handles) (block indentless : Bool) : (fuel : Nat) → Build Nat
  | 0 => malformed
  | fuel + 1 => do
    let token ← peek
    if let .alias name := token.kind then
      let _ ← take
      return ← resolve name
    let p ← takeProperties handles
    let token ← peek
    let place := p.place.getD token.start
    match token.kind with
    | .scalar text plain =>
      let _ ← take
      addScalar p place text plain
    | .flowSequenceStart =>
      addSequence p place do
        let _ ← take
        readFlowItems handles true fuel
    | .flowMappingStart =>
      addMapping p place do
        let _ ← take
        readFlowPairs handles true fuel
    | kind =>
      if kind = .blockEntry && indentless then
        addSequence p place (readIndentlessItems handles fuel)
      else if kind = .blockSequenceStart && block then
        addSequence p place do
          let _ ← take
          readBlockItems handles fuel
      else if kind = .blockMappingStart && block then
        addMapping p place do
          let _ ← take
          readBlockPairs handles fuel
      else if p.anchor.isSome || p.tag.isSome then addScalar p place "" p.tag.isNone
      else malformed

/-- Reads a node unless a token that ends its place comes next; then the node is empty and stands
at `place`. -/
def readUnless (ends : List TokenKind) (place : Mark) (handles : Handles)
    (block indentless : Bool) : (fuel : Nat) → Build Nat
  | 0 => malformed
  | fuel + 1 => do
    if ← next ends then addEmpty place
    else read handles block indentless fuel

/-- Reads the value behind a key: after a colon, or empty where the next token starts. -/
def readValue (ends : List TokenKind) (handles : Handles) (block indentless : Bool) :
    (fuel : Nat) → Build Nat
  | 0 => malformed
  | fuel + 1 => do
    let token ← peek
    if token.kind = .value then
      let _ ← take
      readUnless ends token.stop handles block indentless fuel
    else addEmpty token.start

/-- Reads the items of a block sequence and its end. -/
def readBlockItems (handles : Handles) : (fuel : Nat) → Build (List Nat)
  | 0 => malformed
  | fuel + 1 => do
    let token ← take
    match token.kind with
    | .blockEntry =>
      let item ← readUnless [.blockEntry, .blockEnd] token.stop handles true false fuel
      return item :: (← readBlockItems handles fuel)
    | .blockEnd => return []
    | _ => malformed

/-- Reads the items of a sequence that has no indentation of its own. -/
def readIndentlessItems (handles : Handles) : (fuel : Nat) → Build (List Nat)
  | 0 => malformed
  | fuel + 1 => do
    let token ← peek
    if token.kind = .blockEntry then
      let _ ← take
      let ends : List TokenKind := [.blockEntry, .key, .value, .blockEnd]
      let item ← readUnless ends token.stop handles true false fuel
      return item :: (← readIndentlessItems handles fuel)
    else return []

/-- Reads the pairs of a block mapping and its end. -/
def readBlockPairs (handles : Handles) : (fuel : Nat) → Build (List (Nat × Nat))
  | 0 => malformed
  | fuel + 1 => do
    let token ← take
    match token.kind with
    | .key =>
      let ends : List TokenKind := [.key, .value, .blockEnd]
      let key ← readUnless ends token.stop handles true true fuel
      let value ← readValue ends handles true true fuel
      return (key, value) :: (← readBlockPairs handles fuel)
    | .blockEnd => return []
    | _ => malformed

/-- Reads the items of a flow sequence and its end. A pair among them is a mapping of its own. -/
def readFlowItems (handles : Handles) (first : Bool) : (fuel : Nat) → Build (List Nat)
  | 0 => malformed
  | fuel + 1 => do
    let closing ← next [.flowSequenceEnd]
    unless closing || first do
      let comma ← take
      unless comma.kind = .flowEntry do malformed
    let token ← peek
    if token.kind = .flowSequenceEnd then
      let _ ← take
      return []
    else if token.kind = .key then
      let item ← addMapping ⟨none, none, none⟩ token.start do
        let _ ← take
        let ends : List TokenKind := [.flowEntry, .flowSequenceEnd]
        let key ← readUnless (.value :: ends) token.stop handles false false fuel
        let value ← readValue ends handles false false fuel
        return [(key, value)]
      return item :: (← readFlowItems handles false fuel)
    else
      let item ← read handles false false fuel
      return item :: (← readFlowItems handles false fuel)

/-- Reads the pairs of a flow mapping and its end. A node that is no pair is a key without a
value. -/
def readFlowPairs (handles : Handles) (first : Bool) : (fuel : Nat) → Build (List (Nat × Nat))
  | 0 => malformed
  | fuel + 1 => do
    let closing ← next [.flowMappingEnd]
    unless closing || first do
      let comma ← take
      unless comma.kind = .flowEntry do malformed
    let token ← peek
    if token.kind = .flowMappingEnd then
      let _ ← take
      return []
    else if token.kind = .key then
      let _ ← take
      let ends : List TokenKind := [.flowEntry, .flowMappingEnd]
      let key ← readUnless (.value :: ends) token.stop handles false false fuel
      let value ← readValue ends handles false false fuel
      return (key, value) :: (← readFlowPairs handles false fuel)
    else
      let key ← read handles false false fuel
      let value ← addEmpty (← peek).start
      return (key, value) :: (← readFlowPairs handles false fuel)
end

/-! ## Documents -/

/-- The handles that every document knows. -/
def standardHandles : Handles := [("!", "!"), ("!!", coreTag "")]

/-- Reads the directives in front of a document: at most one version, which has to be 1, and handles
that do not repeat. -/
def readDirectives : (fuel : Nat) → (versioned : Bool) → Handles → Build Handles
  | 0, _, _ => malformed
  | fuel + 1, versioned, handles => do
    match (← peek).kind with
    | .directive d =>
      let _ ← take
      match d with
      | .version major =>
        if versioned || major ≠ 1 then malformed else readDirectives fuel true handles
      | .tag handle stem =>
        if (handles.lookup handle).isSome then malformed
        else readDirectives fuel versioned ((handle, stem) :: handles)
      | .other => readDirectives fuel versioned handles
    | _ => return handles

/-- Reads the directives in front of a document, and the mark of its start. -/
def readStart (fuel : Nat) : Build Handles := do
  let handles ← readDirectives fuel false []
  unless (← take).kind = .documentStart do malformed
  return handles ++ standardHandles

/-- Passes over markers of a document's end. -/
def skipEnds : (fuel : Nat) → Build Unit
  | 0 => malformed
  | fuel + 1 => do
    if ← next [.documentEnd] then
      let _ ← take
      skipEnds fuel

/-- Whether a token cannot belong to the content of a document. -/
def endsContent : TokenKind → Bool
  | .directive _ | .documentStart | .documentEnd | .streamEnd => true
  | _ => false

/-- Reads a document, which need not have content if its start is marked. -/
def readDocument (fuel : Nat) : Build Nat := do
  match (← peek).kind with
  | .directive _ | .documentStart =>
    let handles ← readStart fuel
    let token ← peek
    if endsContent token.kind then addEmpty token.start else read handles true false fuel
  | _ => read standardHandles true false fuel

/-- Reads the only document of a text; a text without one has no node. -/
def readOnly (fuel : Nat) : Build (Option Nat) := do
  if ← next [.streamEnd] then return none
  let root ← readDocument fuel
  skipEnds fuel
  if ← next [.streamEnd] then return some root
  let _ ← readStart fuel
  malformed

/-- The graph of the only document in some tokens, and the number of its outermost node. -/
def ofTokens (stream : TokenStream) : Except Error (Option (Graph × Nat)) := do
  let fuel := 4 * stream.tokens.length + 8
  let (root, p) ← (readOnly fuel).run ⟨stream.tokens, stream.fault, [], #[]⟩
  return root.map fun n => (p.graph, n)

end SchemaForms.Yaml.Graph
