import SchemaForms.Number.Layout
import SchemaForms.Number.Reading
import SchemaForms.Text.Quoted
import SchemaForms.Yaml.Cursor

/-!
# What can be wrong with a YAML text

A text that is no YAML, or is more than one document, is `malformed`. A text that is YAML may still
not mean anything: a node without meaning is a `NodeFault` at the place of the node, and a scalar
that does not say what its tag promises is one of the other causes.
-/

namespace SchemaForms.Yaml

/-- The three kinds of node. -/
inductive NodeKind where
  | scalar
  | sequence
  | mapping
  deriving DecidableEq, Repr

namespace NodeKind

/-- The name of a kind in messages. -/
def name : NodeKind → String
  | scalar => "scalar"
  | sequence => "sequence"
  | mapping => "mapping"

/-- The name of the class of such nodes in messages. -/
def className : NodeKind → String
  | scalar => "ScalarNode"
  | sequence => "SequenceNode"
  | mapping => "MappingNode"

end NodeKind

/-- Why a node has no meaning. -/
inductive NodeFault where
  | unknownTag (tag : String)
  | expected (wanted found : NodeKind)
  /-- A node inside itself. -/
  | recursive
  /-- A key that is not a string, shown as it was found. -/
  | nonStringKey (display : String)
  | unhashableKey
  | mergeOfOther (found : NodeKind)
  | mergeOfMany (found : NodeKind)
  | pairExpected (form : String) (found : NodeKind)
  | pairLength (form : String) (items : Nat)
  | sequenceExpected (form : String) (found : NodeKind)
  | base64NotAscii (offending : List Char) (position : Nat)
  | base64Padding
  | base64Length (characters : Nat)
  deriving DecidableEq, Repr

namespace NodeFault

/-- The wording of a fault. -/
def wording : NodeFault → String
  | unknownTag tag => "could not determine a constructor for the tag " ++ Text.quoted tag
  | expected wanted found => "expected a " ++ wanted.name ++ " node, but found " ++ found.name
  | recursive => "found unconstructable recursive node"
  | nonStringKey display =>
    "found non-string key " ++ display ++ "; JSON object keys must be strings"
  | unhashableKey => "found unhashable key"
  | mergeOfOther found => "expected a mapping for merging, but found " ++ found.name
  | mergeOfMany found =>
    "expected a mapping or list of mappings for merging, but found " ++ found.name
  | pairExpected _ found => "expected a mapping of length 1, but found " ++ found.name
  | pairLength _ items => "expected a single mapping item, but found " ++ toString items ++ " items"
  | sequenceExpected _ found => "expected a sequence, but found " ++ found.name
  | base64NotAscii offending position =>
    let place := match offending with
      | [c] => "character '" ++ String.ofList (Text.numericEscape c.toNat) ++ "' in position " ++
          toString position
      | cs => "characters in position " ++ toString position ++ "-" ++
          toString (position + cs.length - 1)
    "failed to convert base64 data into ascii: 'ascii' codec can't encode " ++ place ++
      ": ordinal not in range(128)"
  | base64Padding => "failed to decode base64 data: Incorrect padding"
  | base64Length characters =>
    "failed to decode base64 data: Invalid base64-encoded string: number of data characters (" ++
      toString characters ++ ") cannot be 1 more than a multiple of 4"

/-- What was being read, for the faults that are told with it. -/
def context? : NodeFault → Option String
  | nonStringKey _ => some "while constructing a mapping"
  | unhashableKey => some "while constructing a mapping"
  | mergeOfOther _ => some "while constructing a mapping"
  | mergeOfMany _ => some "while constructing a mapping"
  | pairExpected form _ => some form
  | pairLength form _ => some form
  | sequenceExpected form _ => some form
  | _ => none

end NodeFault

/-- Why a text could not be read. -/
inductive Error where
  /-- It is not YAML, or more than one document. -/
  | malformed
  /-- A node without meaning, at its place; some faults tell the place of the node around it. -/
  | node (fault : NodeFault) (place : Mark) (context : Mark)
  /-- An integer that cannot be read in its base. -/
  | notAnInteger (base : Nat) (text : String)
  | integerTooLong (digits : Nat)
  /-- A key that is not a string has an integer that is too long to be shown. -/
  | tooLongToShow
  | notADouble (text : String)
  /-- A double with so many parts of base sixty that the worth of one is beyond all doubles. -/
  | tooManyParts
  /-- A scalar of a numeric tag without a single digit or sign. -/
  | emptyNumber
  | notABoolean (text : String)
  | notADate (text : String)
  /-- A mapping that is tagged as a date or time. -/
  | notADateText
  /-- A date or time with a field that no calendar or clock has. -/
  | fieldOutOfRange (message : String)
  /-- A mapping was promised, and the parts of the node are no pairs. -/
  | notPairs (part : NodeKind)
  | shortPair
  /-- An escape for a number that is no character. -/
  | noSuchCharacter (number : Nat)
  /-- A scalar that stands for itself, in turn or at once. -/
  | endless
  deriving DecidableEq, Repr

/-- The first two hundred characters of a text. -/
def clipped (text : String) : String := String.ofList (text.toList.take 200)

/-- The wording of an error in a text; what makes a text malformed is not told. -/
def Error.wording (text : List Char) : Error → String
  | malformed => "not a YAML document"
  | node fault place context =>
    let lines := match fault.context? with
      | none => []
      | some what => what :: (if context = place then [] else [context.describe text])
    "\n".intercalate (lines ++ [fault.wording, place.describe text])
  | notAnInteger base shown =>
    "invalid literal for int() with base " ++ toString base ++ ": " ++
      clipped (Text.quoted shown)
  | integerTooLong digits => Number.tooManyDigits digits
  | tooLongToShow => Number.tooLongToShow
  | notADouble shown => "could not convert string to float: " ++ Text.quoted shown
  | tooManyParts => "int too large to convert to float"
  | emptyNumber => "string index out of range"
  | notABoolean shown => Text.quoted shown
  | notADate _ => "not a date"
  | notADateText => "expected string or bytes-like object, got 'list'"
  | fieldOutOfRange message => message
  | notPairs part => "cannot unpack non-iterable " ++ part.className ++ " object"
  | shortPair => "not enough values to unpack (expected 2, got 1)"
  | noSuchCharacter _ => "chr() arg not in range(0x110000)"
  | endless => "maximum recursion depth exceeded"

end SchemaForms.Yaml
