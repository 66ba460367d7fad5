import SchemaForms.Yaml.Scalar.Block
import SchemaForms.Yaml.Scalar.Plain
import SchemaForms.Yaml.Scalar.Quoted
import SchemaForms.Yaml.Tag

/-!
# Taking a YAML text apart

`tokens` turns a text into its tokens. The start of a block is seen from the column alone, and a key
is seen to be one only when the colon behind it comes: until then its place is remembered in `keys`,
one for every level of brackets, and the tokens of the pair are put in at that place. A key has to
stand on one line and to be no longer than 1024 characters.

A text that cannot be taken apart up to its end has tokens all the same: those in front of the fault
that are certain to stand as they are. What they say may be at fault too, and counts first.
-/

namespace SchemaForms.Yaml

open SchemaForms.Text (Halves)

/-- A place where a key may have started. -/
structure KeyPlace where
  /-- How many tokens were read before it. -/
  position : Nat
  /-- Whether nothing but a key can stand there. -/
  required : Bool
  mark : Mark

/-- A text taken apart up to a cursor. -/
structure Scan where
  cursor : Cursor
  tokens : Array Token
  /-- How many brackets are open. -/
  flowLevel : Nat
  /-- The column of the block that is open, -1 outside of all blocks. -/
  indent : Int
  /-- The columns of the blocks around it. -/
  outer : List Int
  /-- Whether a key may start at the cursor. -/
  keyAllowed : Bool
  /-- Where keys may have started, by level of brackets. -/
  keys : List (Nat × KeyPlace)

namespace Scan

/-- Whether the cursor stands inside brackets. -/
def inFlow (s : Scan) : Bool := s.flowLevel ≠ 0

/-- Adds a token. -/
def push (s : Scan) (kind : TokenKind) (start stop : Mark) : Scan :=
  { s with tokens := s.tokens.push ⟨kind, start, stop⟩ }

/-- Adds a token that takes up no characters. -/
def pushEmpty (s : Scan) (kind : TokenKind) : Scan := s.push kind s.cursor.mark s.cursor.mark

/-- Adds a token that ends at `after`, and goes there. -/
def pushTo (s : Scan) (kind : TokenKind) (after : Cursor) : Scan :=
  { s.push kind s.cursor.mark after.mark with cursor := after }

/-- Puts a token in front of those from a position on. -/
def insert (s : Scan) (position : Nat) (kind : TokenKind) (mark : Mark) : Scan :=
  { s with tokens := s.tokens.insertIdxIfInBounds position ⟨kind, mark, mark⟩ }

/-- Whether a key may start at the cursor from now on. -/
def allowKey (s : Scan) (allowed : Bool) : Scan := { s with keyAllowed := allowed }

/-! ## Keys -/

/-- Whether what started at the place of a key is too long for one. -/
def isStale (s : Scan) (k : KeyPlace) : Bool :=
  k.mark.line ≠ s.cursor.mark.line || 1024 < s.cursor.mark.index - k.mark.index

/-- Forgets the places of keys that have become too long; one that had to be a key is malformed. -/
def dropStaleKeys (s : Scan) : Except Error Scan :=
  if s.keys.any fun (_, k) => s.isStale k && k.required then .error .malformed
  else .ok { s with keys := s.keys.filter fun (_, k) => !s.isStale k }

/-- How many tokens are certain: those in front of the first one that may yet become a key. -/
def certain (s : Scan) : Nat :=
  s.keys.foldl (fun n (_, k) => if s.isStale k then n else min n k.position) s.tokens.size

/-- Forgets the place of a key at this level of brackets; one that had to be a key is malformed. -/
def dropKey (s : Scan) : Except Error Scan :=
  match s.keys.lookup s.flowLevel with
  | none => .ok s
  | some k =>
    if k.required then .error .malformed
    else .ok { s with keys := s.keys.filter (·.1 ≠ s.flowLevel) }

/-- Remembers the cursor as the place of a key, if one may start here. -/
def saveKey (s : Scan) : Except Error Scan := do
  if !s.keyAllowed then .ok s
  else
    let required := !s.inFlow && s.indent = s.cursor.column
    let s ← s.dropKey
    .ok { s with keys := (s.flowLevel, ⟨s.tokens.size, required, s.cursor.mark⟩) :: s.keys }

/-! ## Blocks -/

/-- Closes the blocks that are indented more than a column. -/
def closeBlocks (column : Int) : (open? : List Int) → Scan → Scan
  | [], s => s
  | outer :: rest, s =>
    if s.indent ≤ column then s
    else closeBlocks column rest { s.pushEmpty .blockEnd with indent := outer, outer := rest }

/-- Closes the blocks that are indented more than a column; inside brackets columns say nothing. -/
def unwind (s : Scan) (column : Int) : Scan :=
  if s.inFlow then s else closeBlocks column s.outer s

/-- Whether a column opens a block. -/
def opensBlock (s : Scan) (column : Nat) : Bool := !s.inFlow && decide (s.indent < column)

/-- Opens a block at a column, if it lies further right than the one that is open. -/
def openBlock (s : Scan) (column : Nat) : Scan :=
  if s.opensBlock column then { s with indent := column, outer := s.indent :: s.outer } else s

/-- Opens a block at the cursor, if its column does, with a token for its start. -/
def startBlock (s : Scan) (kind : TokenKind) : Scan :=
  let opens := s.opensBlock s.cursor.column
  let s' := s.openBlock s.cursor.column
  if opens then s'.pushEmpty kind else s'

/-- Outside of brackets, a mark of a block may stand only where a key may start. -/
def demandKeyAllowed (s : Scan) : Except Error Scan :=
  if !s.inFlow && !s.keyAllowed then .error .malformed else .ok s

/-! ## Tokens -/

/-- The cursor at the next token, past white space, comments and line ends. -/
def skipToToken : (fuel : Nat) → Scan → Scan
  | 0, s => s
  | fuel + 1, s =>
    let c := s.cursor.skipComment
    if c.lineBreak?.isSome then
      skipToToken fuel { s with cursor := c.next, keyAllowed := s.keyAllowed || !s.inFlow }
    else { s with cursor := c }

/-- The end of the text. -/
def fetchEnd (s : Scan) : Except Error Scan := do
  let s ← (s.unwind (-1)).dropKey
  .ok ((s.allowKey false).pushEmpty .streamEnd)

/-- A directive. -/
def fetchDirective (s : Scan) : Except Error Scan := do
  let s ← (s.unwind (-1)).dropKey
  let (kind, after) ← readDirective s.cursor
  .ok ((s.allowKey false).pushTo kind after)

/-- The start or the end of a document. -/
def fetchSeparator (s : Scan) (kind : TokenKind) : Except Error Scan := do
  let s ← (s.unwind (-1)).dropKey
  .ok ((s.allowKey false).pushTo kind (s.cursor.drop 3))

/-- An opening bracket, which may start a key. -/
def fetchOpening (s : Scan) (kind : TokenKind) : Except Error Scan := do
  let s ← s.saveKey
  .ok ({ s.allowKey true with flowLevel := s.flowLevel + 1 }.pushTo kind s.cursor.next)

/-- A closing bracket. -/
def fetchClosing (s : Scan) (kind : TokenKind) : Except Error Scan := do
  let s ← s.dropKey
  .ok ({ s.allowKey false with flowLevel := s.flowLevel - 1 }.pushTo kind s.cursor.next)

/-- A comma between brackets. -/
def fetchFlowEntry (s : Scan) : Except Error Scan := do
  let s ← s.dropKey
  .ok ((s.allowKey true).pushTo .flowEntry s.cursor.next)

/-- The hyphen in front of an item. -/
def fetchBlockEntry (s : Scan) : Except Error Scan := do
  let s ← s.demandKeyAllowed
  let s ← (s.startBlock .blockSequenceStart).dropKey
  .ok ((s.allowKey true).pushTo .blockEntry s.cursor.next)

/-- The question mark in front of a key. -/
def fetchKey (s : Scan) : Except Error Scan := do
  let s ← s.demandKeyAllowed
  let s ← (s.startBlock .blockMappingStart).dropKey
  .ok ((s.allowKey !s.inFlow).pushTo .key s.cursor.next)

/-- The colon in front of a value. What was read since the place of a key was that key. -/
def fetchValue (s : Scan) : Except Error Scan := do
  match s.keys.lookup s.flowLevel with
  | some k =>
    let s := { s with keys := s.keys.filter (·.1 ≠ s.flowLevel) }
    let s := s.insert k.position .key k.mark
    let opens := s.opensBlock k.mark.column
    let s := s.openBlock k.mark.column
    let s := if opens then s.insert k.position .blockMappingStart k.mark else s
    .ok ((s.allowKey false).pushTo .value s.cursor.next)
  | none =>
    let s ← s.demandKeyAllowed
    let s ← (s.startBlock .blockMappingStart).dropKey
    .ok ((s.allowKey !s.inFlow).pushTo .value s.cursor.next)

/-- An anchor, an alias or a tag, which may start a key. -/
def fetchProperty (s : Scan) (read : Cursor → Except Error (TokenKind × Cursor)) :
    Except Error Scan := do
  let s ← s.saveKey
  let (kind, after) ← read s.cursor
  .ok ((s.allowKey false).pushTo kind after)

/-- A quoted scalar, which may start a key. -/
def fetchQuoted (halves : Halves) (s : Scan) (double : Bool) : Except Error Scan :=
  s.fetchProperty fun c => do
    let (text, after) ← readQuoted halves double c
    .ok (.scalar (String.ofList text) false, after)

/-- A block scalar. -/
def fetchBlockScalar (s : Scan) (folded : Bool) : Except Error Scan := do
  let s ← s.dropKey
  let (text, after) ← readBlock folded s.indent s.cursor
  .ok ((s.allowKey true).pushTo (.scalar (String.ofList text) false) after)

/-- A plain scalar, which may start a key. -/
def fetchPlain (s : Scan) : Except Error Scan := do
  let s ← s.saveKey
  let scalar := readPlain s.inFlow s.indent s.cursor
  .ok ((s.allowKey scalar.brokeLine).pushTo (.scalar (String.ofList scalar.text) true)
    scalar.cursor)

/-- Whether a plain scalar may start with `ch`, with `next` behind it. -/
def startsPlain (flow : Bool) (ch : Char) (next : Option Char) : Bool :=
  !(isBlank ch || "-?:,[]\x7b\x7d#&*!|>\x27\x22%@\x60".toList.contains ch) ||
    !isGap next && (ch = '-' || !flow && (ch = '?' || ch = ':'))

/-- Reads the next token. -/
def fetch (halves : Halves) (s : Scan) : Except Error Scan := do
  let s := skipToToken (s.cursor.rest.length + 1) s
  let s ← s.dropStaleKeys
  let s := s.unwind s.cursor.column
  let c := s.cursor
  match c.rest with
  | [] => s.fetchEnd
  | ch :: rest =>
    let next := rest.head?
    if ch = '%' && c.column = 0 then s.fetchDirective
    else if ch = '-' && c.column = 0 && c.atSeparator then s.fetchSeparator .documentStart
    else if ch = '.' && c.column = 0 && c.atSeparator then s.fetchSeparator .documentEnd
    else if ch = '[' then s.fetchOpening .flowSequenceStart
    else if ch = '\x7b' then s.fetchOpening .flowMappingStart
    else if ch = ']' then s.fetchClosing .flowSequenceEnd
    else if ch = '\x7d' then s.fetchClosing .flowMappingEnd
    else if ch = ',' then s.fetchFlowEntry
    else if ch = '-' && isGap next then s.fetchBlockEntry
    else if ch = '?' && (s.inFlow || isGap next) then s.fetchKey
    else if ch = ':' && (s.inFlow || isGap next) then s.fetchValue
    else if ch = '*' then s.fetchProperty fun c => do
      let (name, after) ← readName c
      .ok (.alias name, after)
    else if ch = '&' then s.fetchProperty fun c => do
      let (name, after) ← readName c
      .ok (.anchor name, after)
    else if ch = '!' then s.fetchProperty readTag
    else if ch = '|' && !s.inFlow then s.fetchBlockScalar false
    else if ch = '>' && !s.inFlow then s.fetchBlockScalar true
    else if ch = '\x27' then s.fetchQuoted halves false
    else if ch = '\x22' then s.fetchQuoted halves true
    else if startsPlain s.inFlow ch next then s.fetchPlain
    else .error .malformed

end Scan

/-- The tokens of a text that are certain, and what is wrong behind them. -/
structure TokenStream where
  tokens : List Token
  fault : Option Error

namespace Scan

/-- Reads tokens up to the end of the text. Every token but those takes up a character. -/
def fetchAll (halves : Halves) : (fuel : Nat) → Scan → TokenStream
  | 0, s => ⟨s.tokens.toList, none⟩
  | fuel + 1, s =>
    match s.fetch halves with
    | .error fault => ⟨s.tokens.toList.take s.certain, some fault⟩
    | .ok next =>
      if next.tokens.back?.any (·.kind = .streamEnd) then ⟨next.tokens.toList, none⟩
      else fetchAll halves fuel next

end Scan

/-- Whether a YAML text may hold `c`. -/
def isPermitted (c : Char) : Bool :=
  c = '\t' || c = '\n' || c = '\r' || c = '\x85' || (0x20 ≤ c.toNat && c.toNat ≤ 0x7E) ||
    (0xA0 ≤ c.toNat && c.toNat ≤ 0xFFFD) || 0x10000 ≤ c.toNat

/-- The tokens of a text. A byte order mark in front of it is passed over. What stands for half a
surrogate pair is left to the one who reads. -/
def tokens (halves : Halves) (text : List Char) : TokenStream :=
  if text.all isPermitted then
    let c : Cursor := ⟨.start, text⟩
    let c := if c.peek = some '\ufeff' then c.next else c
    Scan.fetchAll halves (text.length + 2) ⟨c, #[], 0, -1, [], true, []⟩
  else ⟨[], some .malformed⟩

end SchemaForms.Yaml
