import SchemaForms.Config
import SchemaForms.Schema.Basic
import SchemaForms.Validation.Admits
import SchemaForms.Validation.Trace

/-!
# Judging a document by a schema

`walk` goes through a schema node and a value together and records every place where the value does
not meet the node. References are followed in the definitions of the root; a violation behind one is
located from `definitions` on, and the references that are open count towards the limit on depth.

The walk is not bounded by schema and document, since definitions may refer to themselves and a
container may hold itself, so it is given a stack: one level for each nested step. It is also told
the containers around a value, for a value that stands for one of them. `validate` is the walk of a
whole document.
-/

namespace SchemaForms

/-- Where a walk stands. -/
structure Location where
  instancePath : List String
  schemaPath : List String
  /-- One more than the number of references that are open. -/
  depth : Nat
  deriving DecidableEq, Repr

namespace Location

/-- Where a walk starts. -/
def start : Location := ⟨[], [], 1⟩

/-- The place of a member or an item, and of the part of the schema that judges it. -/
def enter (l : Location) (token : String) (keywords : List String) : Location :=
  { l with instancePath := l.instancePath ++ [token], schemaPath := l.schemaPath ++ keywords }

/-- The same value under a part of the schema. -/
def under (l : Location) (keywords : List String) : Location :=
  { l with schemaPath := l.schemaPath ++ keywords }

/-- The same value behind a reference. -/
def follow (l : Location) (name : String) : Location :=
  { l with schemaPath := ["definitions", name], depth := l.depth + 1 }

/-- The violation at this place. -/
def violation (l : Location) : Violation := ⟨l.instancePath, l.schemaPath⟩

end Location

/-- The walk that records a violation at a place. -/
def violated (config : Config) (l : Location) : Walk :=
  Walk.report config.maxErrors l.violation

/-- The walk for a value that has to be of some kind of JSON value: a leaf of no kind is a fault. -/
def onJson (v : Value) (next : Walk) : Walk :=
  match v.kindOf with
  | .ok _ => next
  | .error leaf => Walk.halt (.fault (.notJson leaf.className))

/-- The walk for a reference: `next` is the walk under the definition, if there is one. -/
def followRef (config : Config) (root : Schema) (l : Location) (name : String)
    (next : Schema → Walk) : Walk :=
  if config.maxDepth = l.depth then Walk.halt .tooDeep
  else match root.definitions with
    | none => Walk.halt (.fault .noDefinitions)
    | some definitions =>
      match definitions.lookup name with
      | none => Walk.halt (.fault (.missingDefinition name))
      | some target => next target

/-- The walk for a scalar type. -/
def judgeScalar (config : Config) (l : Location) (typeName : String) (v : Value) : Walk :=
  match ScalarType.ofName? typeName with
  | none => Walk.halt (.fault (.unknownType typeName))
  | some t => if t.admits v then Walk.done else violated config (l.under ["type"])

/-- The walk for an enumeration. -/
def judgeEnum (config : Config) (l : Location) (values : List String) (v : Value) : Walk :=
  match v with
  | .string text =>
    if values.contains text then Walk.done else violated config (l.under ["enum"])
  | _ => violated config (l.under ["enum"])

/-- The walk for the members of an object that the schema does not declare. The tag of the union
that chose the schema counts as declared. -/
def judgeUndeclared (config : Config) (l : Location) (tag : Option String)
    (declared : List String) (members : List (String × Value)) : Walk :=
  if config.strict then
    Walk.inTurn <| (members.filter fun (key, _) => some key ≠ tag && !declared.contains key).map
      fun (key, _) => violated config (l.enter key [])
  else Walk.done

/-- The walk for a tagged union up to the schema that the tag chooses; `next` is given the tag value
and that schema. -/
def judgeTag (config : Config) (l : Location) (tag : String) (mapping : List (String × Schema))
    (members : List (String × Value)) (next : String → Schema → Walk) : Walk :=
  match members.lookup tag with
  | none => violated config (l.under ["discriminator", "tag"])
  | some value => onJson value <|
    match value with
    | .string text =>
      match mapping.lookup text with
      | some target => next text target
      | none => violated config (l.enter tag ["discriminator", "mapping"])
    | _ => violated config (l.enter tag ["discriminator", "tag"])

/-- The walk of a value under a schema node. `tag` is the member that chose the node, if it is the
direct choice of a tagged union. -/
def walk (config : Config) (root : Schema) :
    (stack : Nat) → Location → (tag : Option String) → Schema → (around : List Value) → Value → Walk
  | 0, _, _, _, _, _ => Walk.halt .stackExhausted
  | stack + 1, l, tag, s, around, v =>
    let (around, v) := v.resolve around
    match s.rule with
    | .anything => Walk.done
    | .definition name =>
      followRef config root l name fun target =>
        walk config root stack (l.follow name) none target around v
    | .scalar typeName => onJson v (judgeScalar config l typeName v)
    | .oneOf values => onJson v (judgeEnum config l values v)
    | .elements item => onJson v <|
      match v with
      | .array items => Walk.inTurn <| items.mapIdx fun i x =>
        walk config root stack (l.enter (toString i) ["elements"]) none item (v :: around) x
      | _ => violated config (l.under ["elements"])
    | .properties required optional => onJson v <|
      match v with
      | .object members =>
        let judgeMember (keyword name : String) (sub : Schema) (x : Value) : Walk :=
          walk config root stack (l.enter name [keyword, name]) none sub (v :: around) x
        let judgeRequired : Walk := Walk.inTurn <| (required.getD []).map fun (name, sub) =>
          match members.lookup name with
          | some x => judgeMember "properties" name sub x
          | none => violated config (l.under ["properties", name])
        let judgeOptional : Walk := Walk.inTurn <| (optional.getD []).map fun (name, sub) =>
          match members.lookup name with
          | some x => judgeMember "optionalProperties" name sub x
          | none => Walk.done
        let declared := ((required.getD []) ++ (optional.getD [])).map (·.1)
        judgeRequired.andThen <| judgeOptional.andThen <|
          judgeUndeclared config l tag declared members
      | _ =>
        violated config
          (l.under [if required.isSome then "properties" else "optionalProperties"])
    | .values member => onJson v <|
      match v with
      | .object members => Walk.inTurn <| members.map fun (key, x) =>
        walk config root stack (l.enter key ["values"]) none member (v :: around) x
      | _ => violated config (l.under ["values"])
    | .tagged unionTag mapping => onJson v <|
      match v with
      | .object members => judgeTag config l unionTag mapping members fun text target =>
        walk config root stack (l.under ["discriminator", "mapping", text]) (some unionTag) target
          around v
      | _ => violated config (l.under ["discriminator"])

/-- Why a document could not be judged. -/
inductive Abort where
  /-- A reference nested as deep as the limit. -/
  | tooDeep (limit : Nat)
  | stackExhausted
  | fault (cause : WalkFault)
  deriving DecidableEq, Repr

/-- The wording of an abort. -/
def Abort.wording : Abort → String
  | tooDeep limit =>
    "jsl: maximum evaluation depth exceeded (max_depth=" ++ toString limit ++ ")"
  | stackExhausted =>
    "maximum recursion depth exceeded; set --max-depth to bound ref nesting"
  | fault (.notJson className) => "not a JSON value: " ++ className
  | fault (.unknownType typeName) => Text.quoted typeName ++ " is not a valid Type"
  | fault (.missingDefinition name) => "no such definition: " ++ name
  | fault .noDefinitions => "no definitions"

/-- The outcome of a trace: a walk that halted because it found enough has a report as well. -/
def Trace.outcome (t : Trace) (config : Config) : Except Abort Report :=
  match t.halt with
  | none => .ok ⟨t.violations⟩
  | some .errorLimit => .ok ⟨t.violations⟩
  | some .tooDeep => .error (.tooDeep config.maxDepth)
  | some .stackExhausted => .error .stackExhausted
  | some (.fault cause) => .error (.fault cause)

/-- The trace of a document under a root schema, with a stack of so many levels. -/
def trace (stack : Nat) (config : Config) (root : Schema) (document : Value) : Trace :=
  walk config root stack Location.start none root [] document 0

/-- The stack that a validation is given. -/
def stackLimit : Nat := 480

/-- Judges a document by a root schema. -/
def validate (config : Config) (root : Schema) (document : Value) : Except Abort Report :=
  (trace stackLimit config root document).outcome config

end SchemaForms
