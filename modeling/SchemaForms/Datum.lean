import SchemaForms.Document.Path
import SchemaForms.ExitCode
import SchemaForms.Json.Writer
import SchemaForms.Report
import SchemaForms.Schema.Key
import SchemaForms.Schema.Wire
import SchemaForms.Value.Display

/-!
# Library values and their documents

A `Datum` is anything the library can be asked to print: a document, a name out of one of its
enumerations, a path, a schema, a violation, a report, and lists, tuples and mappings of such.
`Datum.toValue` turns it into the document to print, `Datum.write` into the text of that document,
and `Datum.kindOf` sorts it into a kind of JSON value without turning it into one.

The keys of a mapping become text. Two keys that are equal as values are one entry from the start:
numbers, truth values and exit codes by their value, texts and names by their text.
-/

namespace SchemaForms

/-- A value of the library. -/
inductive Datum where
  | document (v : Value)
  | form (f : Form)
  | scalarType (t : ScalarType)
  | kind (k : Kind)
  | exitCode (c : ExitCode)
  | path (p : Path)
  | schema (s : Schema)
  | violation (v : Violation)
  | report (r : Report)
  | list (items : List Datum)
  | tuple (items : List Datum)
  | mapping (entries : List (Datum × Datum))
  | set
  | octets (bytes : List UInt8)

/-- Why a value cannot be used as asked. -/
inductive DatumFault where
  /-- It has no JSON form. -/
  | notSerializable (className : String)
  /-- It is of no kind of JSON value. -/
  | notJson (className : String)
  /-- It cannot be the key of a mapping. -/
  | notAKey
  deriving DecidableEq, Repr

namespace Datum

/-- The name of an enumeration's member in messages: its class and its name in upper case. -/
def memberName (className name : String) : String :=
  className ++ "." ++ String.ofList (name.toList.map Char.toUpper)

/-- The kind of JSON value that a value is of. Names are strings, exit codes are numbers. -/
def kindOf : Datum → Except DatumFault Kind
  | document v => v.kindOf.mapError fun leaf => .notJson leaf.className
  | form _ => .ok .string
  | scalarType _ => .ok .string
  | kind _ => .ok .string
  | exitCode _ => .ok .number
  | list _ => .ok .array
  | mapping _ => .ok .object
  | path _ => .error (.notJson "PosixPath")
  | schema _ => .error (.notJson "Schema")
  | violation _ => .error (.notJson "ValidationError")
  | report _ => .error (.notJson "ValidationResult")
  | tuple _ => .error (.notJson "tuple")
  | set => .error (.notJson "set")
  | octets _ => .error (.notJson "bytes")

/-! ## Keys of mappings -/

/-- What a key is, up to equality. -/
inductive Identity where
  | none
  | text (s : String)
  /-- A number with a whole value, a truth value or an exit code. -/
  | whole (n : Int)
  | double (x : Number.Double)
  | path (p : Path)
  | violation (v : Violation)
  | octets (bytes : List UInt8)
  | schema (text : String)
  | tuple (parts : List Identity)

mutual
/-- Whether two keys are equal. -/
def Identity.same : Identity → Identity → Bool
  | .none, .none => true
  | .text s, .text s' => s == s'
  | .whole n, .whole n' => n == n'
  | .double x, .double x' => x == x'
  | .path p, .path p' => p == p'
  | .violation v, .violation v' => v == v'
  | .octets bytes, .octets bytes' => bytes == bytes'
  | .schema s, .schema s' => s == s'
  | .tuple parts, .tuple parts' => Identity.allSame parts parts'
  | _, _ => false

/-- Whether the parts of two tuples are equal, one by one. -/
def Identity.allSame : List Identity → List Identity → Bool
  | [], [] => true
  | part :: rest, part' :: rest' => Identity.same part part' && Identity.allSame rest rest'
  | _, _ => false
end

instance : BEq Identity := ⟨Identity.same⟩

/-- The identity of a number. -/
def Identity.ofNumber (n : Number) : Identity :=
  match n, n.toInt? with
  | _, some value => whole value
  | .double x, Option.none => double x
  | .int value, Option.none => whole value

/-- What a key is written as, inside another key or as one. -/
structure Key where
  identity : Identity
  /-- The text of the key itself. -/
  text : String
  /-- The text of the key inside a tuple. -/
  display : String

/-- The key of a text that is a member of an enumeration. -/
def Key.member (className name : String) : Key :=
  let text := memberName className name
  ⟨.text name, text, "<" ++ text ++ ": " ++ Text.quoted name ++ ">"⟩

/-- The display of a tuple with these parts. -/
def displayTuple : List String → String
  | [part] => "(" ++ part ++ ",)"
  | parts => "(" ++ ", ".intercalate parts ++ ")"

/-- The display of a tuple of texts. -/
def displayTokens (tokens : List String) : String :=
  displayTuple (tokens.map Text.quoted)

mutual
/-- A value as a key; values that can change cannot be keys. -/
def key : Datum → Except DatumFault Key
  | document v =>
    match v with
    | .null => .ok ⟨.none, v.display, v.display⟩
    | .bool b => .ok ⟨.whole (if b then 1 else 0), v.display, v.display⟩
    | .number n => .ok ⟨.ofNumber n, v.display, v.display⟩
    | .string s => .ok ⟨.text s, s, v.display⟩
    | _ => .error .notAKey
  | form f => .ok (.member "Form" f.name)
  | scalarType t => .ok (.member "Type" t.name)
  | kind k => .ok (.member "InstanceKind" k.name)
  | exitCode c =>
    let number := toString c.number
    .ok ⟨.whole c.number, number, "<ExitCode." ++ c.name ++ ": " ++ number ++ ">"⟩
  | path p => .ok ⟨.path p, p.toString, "PosixPath(" ++ Text.quoted p.toString ++ ")"⟩
  | violation v =>
    let text := "ValidationError(instance_path=" ++ displayTokens v.instancePath ++
      ", schema_path=" ++ displayTokens v.schemaPath ++ ")"
    .ok ⟨.violation v, text, text⟩
  | octets bytes => .ok ⟨.octets bytes, Text.quotedOctets bytes, Text.quotedOctets bytes⟩
  | tuple items => do
    let parts ← keys items
    let text := displayTuple (parts.map (·.display))
    .ok ⟨.tuple (parts.map (·.identity)), text, text⟩
  | schema s =>
    match s.keyText? with
    | some text => .ok ⟨.schema text, text, text⟩
    | none => .error .notAKey
  | report _ => .error .notAKey
  | list _ => .error .notAKey
  | mapping _ => .error .notAKey
  | set => .error .notAKey

/-- The keys of the parts of a tuple. -/
def keys : List Datum → Except DatumFault (List Key)
  | [] => .ok []
  | item :: rest => do
    let first ← key item
    let others ← keys rest
    .ok (first :: others)
end

/-- The entries with a key bound to a value: an equal key that is there stays, with the new
value. -/
def bind {α : Type} (k : Key) (value : α) : List (Key × α) → List (Key × α)
  | [] => [(k, value)]
  | (k', v) :: rest =>
    if k'.identity == k.identity then (k', value) :: rest else (k', v) :: bind k value rest

/-! ## The document of a value -/

/-- The members that entries stand for: entries with equal keys are one, and then those with equal
texts are. The entries are given with what their values stand for, or with the fault. -/
def mergeEntries (entries : List (Key × Except DatumFault Value)) :
    Except DatumFault (List (String × Value)) := do
  let merged := entries.foldl (fun found (k, value) => bind k value found) []
  let members ← merged.mapM fun (k, value) => do
    let v ← value
    .ok (k.text, v)
  .ok (collectMembers members)

mutual
/-- The document of a value. -/
def toValue : Datum → Except DatumFault Value
  | document v => .ok v
  | form f => .ok (.string f.name)
  | scalarType t => .ok (.string t.name)
  | kind k => .ok (.string k.name)
  | exitCode c => .ok (.int c.number)
  | path p => .ok (.string p.toString)
  | schema s => .ok s.toValue
  | violation v => .ok v.toValue
  | report r => .ok r.toValue
  | list items => do
    let values ← toValues items
    .ok (.array values)
  | tuple items => do
    let values ← toValues items
    .ok (.array values)
  | mapping entries => do
    let keyed ← toEntries entries
    let members ← mergeEntries keyed
    .ok (.object members)
  | set => .error (.notSerializable "set")
  | octets _ => .error (.notSerializable "bytes")

/-- The documents of several values, up to the first that has none. -/
def toValues : List Datum → Except DatumFault (List Value)
  | [] => .ok []
  | item :: rest => do
    let first ← toValue item
    let others ← toValues rest
    .ok (first :: others)

/-- The keys of entries with the documents of their values. Whether a value has a document is not
decided yet: an entry may be replaced by a later one. -/
def toEntries : List (Datum × Datum) → Except DatumFault (List (Key × Except DatumFault Value))
  | [] => .ok []
  | (k, value) :: rest => do
    let k ← key k
    let others ← toEntries rest
    .ok ((k, toValue value) :: others)
end

/-- The canonical text of a value. -/
def write (indent : Option Nat) (d : Datum) : Except DatumFault String := do
  let v ← d.toValue
  .ok (Json.canonical indent v)

end Datum

end SchemaForms
