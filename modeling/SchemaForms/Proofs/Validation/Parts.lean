import Mathlib.Logic.Relation
import SchemaForms.Proofs.Schema.Groups
import SchemaForms.Proofs.Validation.Sequence
import SchemaForms.Validation.Walk

/-!
# The parts of a step

A `Frame` is what one step of a walk is given. `Frame.parts` lists what the step does, in order: it
records violations, halts, or goes on to further frames. The walk of a frame is the walk of its
parts in turn, each with one level of the stack less (`walk_succ`), so what holds of a whole walk
follows from the parts: a violation is recorded and a cause to halt arises at a frame that was
visited (`exists_visit_of_mem_violations`, `exists_visit_of_halt`).
-/

namespace SchemaForms

/-- What a step of a walk is given: where it stands, the member that chose the schema if a tagged
union did, the schema, the containers around the value, and the value. -/
structure Frame where
  location : Location
  tag : Option String
  schema : Schema
  around : List Value
  value : Value

/-- A part of a step. -/
inductive Part where
  | report (v : Violation)
  | halt (cause : Halt)
  | visit (f : Frame)

namespace Frame

/-- The frame of a whole document. -/
def start (root : Schema) (document : Value) : Frame :=
  ⟨Location.start, none, root, [], document⟩

/-- The walk from a frame on. -/
def walk (config : Config) (root : Schema) (stack : Nat) (f : Frame) : Walk :=
  SchemaForms.walk config root stack f.location f.tag f.schema f.around f.value

/-- The frame with its value looked up, where that stands for a container around it. -/
def resolved (f : Frame) : Frame :=
  { f with around := (f.value.resolve f.around).1, value := (f.value.resolve f.around).2 }

/-- The frame of a member or an item. -/
def enter (f : Frame) (token : String) (keywords : List String) (s : Schema) (x : Value) : Frame :=
  ⟨f.location.enter token keywords, none, s, f.value :: f.around, x⟩

/-- The frame of the same value behind a reference. -/
def follow (f : Frame) (name : String) (target : Schema) : Frame :=
  ⟨f.location.follow name, none, target, f.around, f.value⟩

/-- The frame of the same value under the schema that a tag chose. -/
def choose (f : Frame) (tag text : String) (target : Schema) : Frame :=
  ⟨f.location.under ["discriminator", "mapping", text], some tag, target, f.around, f.value⟩

/-- The violation at a part of the schema. -/
def blame (f : Frame) (keywords : List String) : Part :=
  .report (f.location.under keywords).violation

/-- The violation of a member. -/
def blameMember (f : Frame) (key : String) (keywords : List String) : Part :=
  .report (f.location.enter key keywords).violation

/-- The parts for a value of some kind of JSON value. -/
def onJson (f : Frame) (parts : List Part) : List Part :=
  match f.value.kindOf with
  | .ok _ => parts
  | .error leaf => [.halt (.fault (.notJson leaf.className))]

/-- The parts for a reference. -/
def refParts (config : Config) (root : Schema) (f : Frame) (name : String) : List Part :=
  if config.maxDepth = f.location.depth then [.halt .tooDeep]
  else match root.definitions with
    | none => [.halt (.fault .noDefinitions)]
    | some definitions =>
      match definitions.lookup name with
      | none => [.halt (.fault (.missingDefinition name))]
      | some target => [.visit (f.follow name target)]

/-- The parts for a scalar type. -/
def scalarParts (f : Frame) (typeName : String) : List Part :=
  match ScalarType.ofName? typeName with
  | none => [.halt (.fault (.unknownType typeName))]
  | some t => if t.admits f.value then [] else [f.blame ["type"]]

/-- The parts for an enumeration. -/
def enumParts (f : Frame) (texts : List String) : List Part :=
  match f.value with
  | .string text => if texts.contains text then [] else [f.blame ["enum"]]
  | _ => [f.blame ["enum"]]

/-- The part for a required member. -/
def requiredPart (f : Frame) (members : List (String × Value)) (name : String) (sub : Schema) :
    Part :=
  match members.lookup name with
  | some x => .visit (f.enter name ["properties", name] sub x)
  | none => f.blame ["properties", name]

/-- The part for an optional member, if it is there. -/
def optionalPart (f : Frame) (members : List (String × Value)) (name : String) (sub : Schema) :
    Option Part :=
  (members.lookup name).map fun x => .visit (f.enter name ["optionalProperties", name] sub x)

/-- The parts for the members that the schema does not declare. -/
def undeclaredParts (config : Config) (f : Frame) (declared : List String)
    (members : List (String × Value)) : List Part :=
  if config.strict then
    (members.filter fun (key, _) => some key ≠ f.tag && !declared.contains key).map
      fun (key, _) => f.blameMember key []
  else []

/-- The parts for a tagged union. -/
def tagParts (f : Frame) (tag : String) (mapping : List (String × Schema))
    (members : List (String × Value)) : List Part :=
  match members.lookup tag with
  | none => [f.blame ["discriminator", "tag"]]
  | some value =>
    match value.kindOf with
    | .error leaf => [.halt (.fault (.notJson leaf.className))]
    | .ok _ =>
      match value with
      | .string text =>
        match mapping.lookup text with
        | some target => [.visit (f.choose tag text target)]
        | none => [f.blameMember tag ["discriminator", "mapping"]]
      | _ => [f.blameMember tag ["discriminator", "tag"]]

/-- The parts for an array of items. -/
def elementParts (f : Frame) (item : Schema) : List Part :=
  match f.value with
  | .array items => items.mapIdx fun i x => .visit (f.enter (toString i) ["elements"] item x)
  | _ => [f.blame ["elements"]]

/-- The parts for the members of an object under properties. -/
def memberParts (config : Config) (f : Frame) (required optional : List (String × Schema))
    (members : List (String × Value)) : List Part :=
  (required.map fun (name, sub) => f.requiredPart members name sub) ++
    ((optional.filterMap fun (name, sub) => f.optionalPart members name sub) ++
      f.undeclaredParts config ((required ++ optional).map (·.1)) members)

/-- The parts for an object with properties. -/
def propertyParts (config : Config) (f : Frame)
    (required optional : Option (List (String × Schema))) : List Part :=
  match f.value with
  | .object members => f.memberParts config (entries required) (entries optional) members
  | _ => [f.blame [if required.isSome then "properties" else "optionalProperties"]]

/-- The parts for an object of members of one schema. -/
def valueParts (f : Frame) (member : Schema) : List Part :=
  match f.value with
  | .object members => members.map fun (key, x) => .visit (f.enter key ["values"] member x)
  | _ => [f.blame ["values"]]

/-- The parts for an object of a tagged union. -/
def unionParts (f : Frame) (tag : String) (mapping : List (String × Schema)) : List Part :=
  match f.value with
  | .object members => f.tagParts tag mapping members
  | _ => [f.blame ["discriminator"]]

/-- The parts of a step at a frame whose value is looked up. -/
def partsHere (config : Config) (root : Schema) (f : Frame) : List Part :=
  match f.schema.rule with
  | .anything => []
  | .definition name => f.refParts config root name
  | .scalar typeName => f.onJson (f.scalarParts typeName)
  | .oneOf texts => f.onJson (f.enumParts texts)
  | .elements item => f.onJson (f.elementParts item)
  | .properties required optional => f.onJson (f.propertyParts config required optional)
  | .values member => f.onJson (f.valueParts member)
  | .tagged tag mapping => f.onJson (f.unionParts tag mapping)

/-- The parts of a step. -/
def parts (config : Config) (root : Schema) (f : Frame) : List Part :=
  f.resolved.partsHere config root

end Frame

/-- The walk of a part. -/
def Part.walk (config : Config) (root : Schema) (stack : Nat) : Part → Walk
  | report v => Walk.report config.maxErrors v
  | halt cause => Walk.halt cause
  | visit f => f.walk config root stack

/-! ## A step of a walk is its parts in turn -/

section step
variable {config : Config} {root : Schema} {stack : Nat} {f : Frame}

open Walk

/-- The walk of parts in turn. -/
def walkParts (config : Config) (root : Schema) (stack : Nat) (parts : List Part) : Walk :=
  inTurn (parts.map (Part.walk config root stack))

theorem walkParts_append (a b : List Part) :
    walkParts config root stack (a ++ b) =
      (walkParts config root stack a).andThen (walkParts config root stack b) := by
  rw [walkParts, List.map_append, inTurn_append]
  rfl

theorem walkParts_nil : walkParts config root stack [] = done := rfl

theorem walkParts_report (v : Violation) :
    walkParts config root stack [.report v] = Walk.report config.maxErrors v :=
  inTurn_singleton _

theorem walkParts_halt (cause : Halt) :
    walkParts config root stack [.halt cause] = Walk.halt cause :=
  inTurn_singleton _

theorem walkParts_visit (f : Frame) :
    walkParts config root stack [.visit f] = f.walk config root stack :=
  inTurn_singleton _

/-- A compositional relation that holds between two walks of each part holds between the two walks
of the parts in turn. -/
theorem walkParts_rel {R : Walk → Walk → Prop} {config' : Config} {stack' : Nat}
    {parts : List Part} (hR : Compositional R)
    (h : ∀ p ∈ parts, R (p.walk config root stack) (p.walk config' root stack')) :
    R (walkParts config root stack parts) (walkParts config' root stack' parts) := by
  refine hR.inTurn ?_
  rw [List.forall₂_map_left_iff, List.forall₂_map_right_iff, List.forall₂_same]
  exact h

theorem walkParts_blame (f : Frame) (keywords : List String) :
    walkParts config root stack [f.blame keywords] =
      violated config (f.location.under keywords) :=
  walkParts_report _

theorem walkParts_blameMember (f : Frame) (key : String) (keywords : List String) :
    walkParts config root stack [f.blameMember key keywords] =
      violated config (f.location.enter key keywords) :=
  walkParts_report _

theorem onJson_eq_walkParts (f : Frame) {next : Walk} {parts : List Part}
    (h : next = walkParts config root stack parts) :
    onJson f.value next = walkParts config root stack (f.onJson parts) := by
  rw [onJson, Frame.onJson]
  cases f.value.kindOf with
  | error leaf => simp only [walkParts_halt]
  | ok _ => exact h

theorem followRef_eq_walkParts (f : Frame) (name : String) :
    followRef config root f.location name (fun target =>
      (f.follow name target).walk config root stack) =
      walkParts config root stack (f.refParts config root name) := by
  rw [followRef, Frame.refParts]
  split_ifs
  · rw [walkParts_halt]
  · cases root.definitions with
    | none => simp only [walkParts_halt]
    | some definitions =>
      simp only
      cases definitions.lookup name with
      | none => simp only [walkParts_halt]
      | some target => simp only [walkParts_visit]

theorem judgeScalar_eq_walkParts (f : Frame) (typeName : String) :
    judgeScalar config f.location typeName f.value =
      walkParts config root stack (f.scalarParts typeName) := by
  rw [judgeScalar, Frame.scalarParts]
  cases ScalarType.ofName? typeName with
  | none => simp only [walkParts_halt]
  | some t =>
    simp only
    split_ifs
    · rw [walkParts_nil]
    · rw [walkParts_blame]

theorem judgeEnum_eq_walkParts (f : Frame) (texts : List String) :
    judgeEnum config f.location texts f.value =
      walkParts config root stack (f.enumParts texts) := by
  unfold judgeEnum Frame.enumParts
  cases f.value with
  | string text =>
    simp only
    split_ifs
    · rw [walkParts_nil]
    · rw [walkParts_blame]
  | _ => simp only [walkParts_blame]

theorem judgeUndeclared_eq_walkParts (f : Frame) (declared : List String)
    (members : List (String × Value)) :
    judgeUndeclared config f.location f.tag declared members =
      walkParts config root stack (f.undeclaredParts config declared members) := by
  rw [judgeUndeclared, Frame.undeclaredParts]
  split_ifs
  · rw [walkParts, List.map_map]
    rfl
  · rw [walkParts_nil]

theorem judgeTag_eq_walkParts (f : Frame) (tag : String) (mapping : List (String × Schema))
    (members : List (String × Value)) :
    judgeTag config f.location tag mapping members (fun text target =>
      (f.choose tag text target).walk config root stack) =
      walkParts config root stack (f.tagParts tag mapping members) := by
  rw [judgeTag, Frame.tagParts]
  cases members.lookup tag with
  | none => simp only [walkParts_blame]
  | some value =>
    simp only [onJson]
    cases value.kindOf with
    | error leaf => simp only [walkParts_halt]
    | ok _ =>
      cases value with
      | string text =>
        simp only
        cases mapping.lookup text with
        | none => simp only [walkParts_blameMember]
        | some target => simp only [walkParts_visit]
      | _ => simp only [walkParts_blameMember]

theorem judgeItems_eq_walkParts (f : Frame) (item : Schema) :
    (match f.value with
      | .array items => inTurn <| items.mapIdx fun i x =>
        (f.enter (toString i) ["elements"] item x).walk config root stack
      | _ => violated config (f.location.under ["elements"])) =
      walkParts config root stack (f.elementParts item) := by
  rw [Frame.elementParts]
  cases f.value with
  | array items =>
    simp only [walkParts, List.mapIdx_eq_zipIdx_map, List.map_map]
    rfl
  | _ => simp only [walkParts_blame]

/-- Walks of what is there, with nothing in the place of what is not. -/
theorem inTurn_map_elim {α : Type} (part : α → Option Part) (xs : List α) :
    inTurn (xs.map fun x => (part x).elim done (Part.walk config root stack)) =
      walkParts config root stack (xs.filterMap part) := by
  induction xs with
  | nil => rfl
  | cons x rest ih =>
    rw [List.map_cons, inTurn, ih]
    cases h : part x with
    | none =>
      rw [List.filterMap_cons_none h]
      exact done_andThen _
    | some p =>
      rw [List.filterMap_cons_some h]
      rfl

theorem judgeRequired_eq_walkParts (f : Frame) (members : List (String × Value))
    (required : List (String × Schema)) :
    (inTurn <| required.map fun (name, sub) =>
      match members.lookup name with
      | some x => (f.enter name ["properties", name] sub x).walk config root stack
      | none => violated config (f.location.under ["properties", name])) =
      walkParts config root stack
        (required.map fun (name, sub) => f.requiredPart members name sub) := by
  rw [walkParts, List.map_map]
  refine congrArg inTurn (List.map_congr_left fun entry _ => ?_)
  obtain ⟨name, sub⟩ := entry
  simp only [Function.comp, Frame.requiredPart]
  cases members.lookup name with
  | none => rfl
  | some x => rfl

theorem judgeOptional_eq_walkParts (f : Frame) (members : List (String × Value))
    (optional : List (String × Schema)) :
    (inTurn <| optional.map fun (name, sub) =>
      match members.lookup name with
      | some x => (f.enter name ["optionalProperties", name] sub x).walk config root stack
      | none => done) =
      walkParts config root stack
        (optional.filterMap fun (name, sub) => f.optionalPart members name sub) := by
  rw [← inTurn_map_elim]
  refine congrArg inTurn (List.map_congr_left fun entry _ => ?_)
  obtain ⟨name, sub⟩ := entry
  simp only [Frame.optionalPart]
  cases members.lookup name with
  | none => rfl
  | some x => rfl

theorem judgeMembers_eq_walkParts (f : Frame)
    (required optional : Option (List (String × Schema))) :
    (match f.value with
      | .object members =>
        (inTurn <| (entries required).map fun (name, sub) =>
          match members.lookup name with
          | some x => (f.enter name ["properties", name] sub x).walk config root stack
          | none => violated config (f.location.under ["properties", name])).andThen <|
        (inTurn <| (entries optional).map fun (name, sub) =>
          match members.lookup name with
          | some x => (f.enter name ["optionalProperties", name] sub x).walk config root stack
          | none => done).andThen <|
        judgeUndeclared config f.location f.tag
          ((entries required ++ entries optional).map (·.1)) members
      | _ => violated config
          (f.location.under [if required.isSome then "properties" else "optionalProperties"])) =
      walkParts config root stack (f.propertyParts config required optional) := by
  rw [Frame.propertyParts]
  cases f.value with
  | object members =>
    simp only [Frame.memberParts, walkParts_append, ← judgeRequired_eq_walkParts,
      ← judgeOptional_eq_walkParts, ← judgeUndeclared_eq_walkParts]
  | _ => simp only [walkParts_blame]

theorem judgeValues_eq_walkParts (f : Frame) (member : Schema) :
    (match f.value with
      | .object members => inTurn <| members.map fun (key, x) =>
        (f.enter key ["values"] member x).walk config root stack
      | _ => violated config (f.location.under ["values"])) =
      walkParts config root stack (f.valueParts member) := by
  rw [Frame.valueParts]
  cases f.value with
  | object members =>
    simp only [walkParts, List.map_map]
    rfl
  | _ => simp only [walkParts_blame]

theorem judgeUnion_eq_walkParts (f : Frame) (tag : String) (mapping : List (String × Schema)) :
    (match f.value with
      | .object members => judgeTag config f.location tag mapping members fun text target =>
        (f.choose tag text target).walk config root stack
      | _ => violated config (f.location.under ["discriminator"])) =
      walkParts config root stack (f.unionParts tag mapping) := by
  rw [Frame.unionParts]
  cases f.value with
  | object members => exact judgeTag_eq_walkParts f tag mapping members
  | _ => simp only [walkParts_blame]

/-- **A step of a walk is the walk of its parts**, with one level of the stack less. -/
theorem walk_succ (f : Frame) :
    f.walk config root (stack + 1) = walkParts config root stack (f.parts config root) := by
  rw [Frame.walk, SchemaForms.walk, Frame.parts, Frame.resolved]
  generalize f.value.resolve f.around = r
  obtain ⟨around, v⟩ := r
  obtain ⟨l, tag, s, _, _⟩ := f
  let g : Frame := ⟨l, tag, s, around, v⟩
  simp only [Frame.partsHere]
  generalize s.rule = rule
  cases rule with
  | anything => exact walkParts_nil.symm
  | definition name => exact followRef_eq_walkParts g name
  | scalar typeName => exact onJson_eq_walkParts g (judgeScalar_eq_walkParts g typeName)
  | oneOf texts => exact onJson_eq_walkParts g (judgeEnum_eq_walkParts g texts)
  | elements item => exact onJson_eq_walkParts g (judgeItems_eq_walkParts g item)
  | properties required optional =>
    exact onJson_eq_walkParts g (judgeMembers_eq_walkParts g required optional)
  | values member => exact onJson_eq_walkParts g (judgeValues_eq_walkParts g member)
  | tagged unionTag mapping =>
    exact onJson_eq_walkParts g (judgeUnion_eq_walkParts g unionTag mapping)

end step

end SchemaForms
