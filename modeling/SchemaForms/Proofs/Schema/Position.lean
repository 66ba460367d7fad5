import SchemaForms.Schema.Shape
import SchemaForms.Proofs.Schema.Path
import SchemaForms.Proofs.Value.Height
import SchemaForms.Proofs.Value.Keys

/-!
# The positions of a schema document

What a value ought to be depends on where it stands. `Position` lists the cases: a schema, a map of
schemas, the text of a keyword, and so on. A position admits values of some kinds
(`Position.admits`), and of an admitted value some parts have a position themselves
(`Position.parts`).

The misfits of a value at a position are then of two sorts (`Position.misfits_eq`). A value that is
not admitted is one itself; of a value that is admitted the misfits are those of its parts, which a
schema that may be null gathers under one.
-/

namespace SchemaForms

/-- What a place of a schema document is for. -/
inductive Position where
  | schema
  /-- A schema, or null. -/
  | optional
  /-- Schemas under names. -/
  | map
  /-- The tag and the mapping of a tagged union. -/
  | union
  /-- The texts of an enumeration. -/
  | texts
  /-- One of these texts. -/
  | item
  /-- The text of a keyword. -/
  | text
  deriving DecidableEq

namespace Position

/-- Whether a value at the place is of the right kind. -/
def admits : Position → Value → Bool
  | schema, .object _ => true
  | optional, .null | optional, .object _ => true
  | map, .null | map, .object _ => true
  | union, .null | union, .object _ => true
  | texts, .null | texts, .array _ => true
  | item, .string _ => true
  | text, .null | text, .string _ => true
  | _, _ => false

/-- What a value of the wrong kind ought to have been. -/
def expected : Position → Expected
  | schema => .object
  | optional => .alternative
  | map | union => .objectOrNull
  | texts => .arrayOrNull
  | item => .string
  | text => .stringOrNull

/-- The position of what stands under a keyword; unknown keywords are for nothing. -/
def ofKeyword? : String → Option Position
  | "definitions" | "properties" | "optionalProperties" => some map
  | "ref" | "type" => some text
  | "enum" => some texts
  | "elements" | "values" => some optional
  | "discriminator" => some union
  | _ => none

/-- The position of a part of a tagged union. -/
def ofPart? : String → Option Position
  | "tag" => some text
  | "mapping" => some map
  | _ => none

/-- A part of a value, with the step to it and its position. -/
structure Part where
  step : Step
  position : Position
  value : Value

/-- The member as a part, if its key has a position. -/
def part? (of? : String → Option Position) (entry : String × Value) : Option Part :=
  (of? entry.1).map fun q => ⟨.key entry.1, q, entry.2⟩

/-- The parts of a value at the place that have a position. -/
def parts : Position → Value → List Part
  | schema, .object members | optional, .object members => members.filterMap (part? ofKeyword?)
  | map, .object members => members.filterMap (part? fun _ => some schema)
  | union, .object members => members.filterMap (part? ofPart?)
  | texts, .array items => items.zipIdx.map fun (x, i) => ⟨.index i, item, x⟩
  | _, _ => []

/-! ## Misfits by position -/

/-- The misfits of the value at the place, with paths from the value on. -/
def misfits : Position → Value → List Misfit
  | schema, v => nodeMisfits v
  | optional, .null => []
  | optional, v =>
    match nodeMisfits v with
    | [] => []
    | found => [.noAlternative [] v (.mismatch [] v .null :: found)]
  | map, v => mapMisfits v
  | union, .null => []
  | union, .object members => discriminatorMisfits members
  | texts, .null => []
  | texts, .array items => (items.mapIdx fun i x =>
      match x with
      | .string _ => []
      | _ => [.mismatch [.index i] x .string]).flatten
  | item, .string _ => []
  | text, .null | text, .string _ => []
  | p, v => [.mismatch [] v p.expected]

/-- The misfit that a value of the wrong kind is. -/
def misfit : Position → Value → Misfit
  | optional, v => .noAlternative [] v [.mismatch [] v .null, .mismatch [] v .object]
  | p, v => .mismatch [] v p.expected

/-- The misfits of the parts of a value. -/
def inner (p : Position) (v : Value) : List Misfit :=
  (p.parts v).flatMap fun part => (part.position.misfits part.value).map (Misfit.under part.step)

/-- What becomes of the misfits inside a value: where it may be null they are one misfit of the
value. -/
def gather (p : Position) (v : Value) (found : List Misfit) : List Misfit :=
  if p = optional ∧ found ≠ [] then [.noAlternative [] v (.mismatch [] v .null :: found)] else found

variable {p q r : Position} {u v w : Value} {members : List (String × Value)}

theorem stringMisfits_eq (key : String) (v : Value) :
    stringMisfits key v = (text.misfits v).map (Misfit.under (.key key)) := by
  cases v <;> rfl

theorem enumMisfits_eq (key : String) (v : Value) :
    enumMisfits key v = (texts.misfits v).map (Misfit.under (.key key)) := by
  cases v with
  | array items =>
    rw [enumMisfits, misfits, List.map_flatten, List.mapIdx_eq_zipIdx_map,
      List.mapIdx_eq_zipIdx_map, List.map_map]
    congr 2
    funext ⟨x, i⟩
    cases x <;> rfl
  | _ => rfl

theorem optionalMisfits_eq (key : String) (v : Value) :
    optionalMisfits key v = (optional.misfits v).map (Misfit.under (.key key)) := by
  cases v with
  | object members =>
    rw [optionalMisfits, misfits, nodeMisfits]
    · cases memberMisfits members <;> rfl
    · nofun
  | null => rw [optionalMisfits, misfits, List.map_nil]
  | _ => simp [optionalMisfits, misfits, nodeMisfits, Misfit.under]

theorem unionMisfits_eq (key : String) (v : Value) :
    (match v with
      | .null => []
      | .object parts => (discriminatorMisfits parts).map (Misfit.under (.key key))
      | _ => [.mismatch [.key key] v .objectOrNull]) =
      (union.misfits v).map (Misfit.under (.key key)) := by
  cases v <;> rfl

/-- What the parts of an object give, member by member. -/
theorem flatMap_part? {α : Type} (f : Part → List α) (of? : String → Option Position) (key : String)
    (v : Value) (rest : List (String × Value)) :
    (((key, v) :: rest).filterMap (part? of?)).flatMap f =
      (match of? key with
        | some q => f ⟨.key key, q, v⟩
        | none => []) ++ (rest.filterMap (part? of?)).flatMap f := by
  unfold part?
  rw [List.filterMap_cons]
  cases of? key <;> rfl

theorem memberMisfits_eq (members : List (String × Value)) :
    memberMisfits members = schema.inner (.object members) := by
  rw [inner, parts]
  induction members with
  | nil => rw [memberMisfits]; rfl
  | cons entry rest ih =>
    obtain ⟨key, v⟩ := entry
    unfold memberMisfits
    rw [flatMap_part?, ← ih]
    unfold ofKeyword?
    congr 1
    split
    · rfl
    · rfl
    · rfl
    · exact stringMisfits_eq _ v
    · exact stringMisfits_eq _ v
    · exact enumMisfits_eq _ v
    · exact optionalMisfits_eq _ v
    · exact optionalMisfits_eq _ v
    · exact unionMisfits_eq _ v
    · simp [*]

theorem discriminatorMisfits_eq (members : List (String × Value)) :
    discriminatorMisfits members = union.inner (.object members) := by
  rw [inner, parts]
  induction members with
  | nil => rw [discriminatorMisfits]; rfl
  | cons entry rest ih =>
    obtain ⟨key, v⟩ := entry
    unfold discriminatorMisfits
    rw [flatMap_part?, ← ih]
    unfold ofPart?
    congr 1
    split
    · exact stringMisfits_eq _ v
    · rfl
    · simp [*]

theorem entryMisfits_eq (members : List (String × Value)) :
    entryMisfits members = map.inner (.object members) := by
  rw [inner, parts]
  induction members with
  | nil => rw [entryMisfits]; rfl
  | cons entry rest ih =>
    obtain ⟨key, v⟩ := entry
    rw [flatMap_part?, ← ih, entryMisfits]
    rfl

/-- **The misfits of a value at a position**: itself, if it is of the wrong kind, or else what
becomes of those of its parts. -/
theorem misfits_eq (p : Position) (v : Value) :
    p.misfits v = if p.admits v then p.gather v (p.inner v) else [p.misfit v] := by
  cases p with
  | schema =>
    cases v with
    | object members => rw [misfits, nodeMisfits, memberMisfits_eq]; rfl
    | _ => simp [misfits, nodeMisfits, admits, misfit, expected]
  | optional =>
    cases v with
    | object members =>
      rw [misfits, nodeMisfits, memberMisfits_eq]
      · cases h : schema.inner (.object members) with
        | nil => simp [admits, show optional.inner (.object members) = [] from h, gather]
        | cons m rest =>
          simp [admits, show optional.inner (.object members) = m :: rest from h, gather]
      · nofun
    | null => rfl
    | _ => simp [misfits, nodeMisfits, admits, misfit]
  | map =>
    cases v with
    | object members => rw [misfits, mapMisfits, entryMisfits_eq]; rfl
    | null => rw [misfits, mapMisfits]; rfl
    | _ => simp [misfits, mapMisfits, admits, misfit, expected]
  | union =>
    cases v with
    | object members => rw [misfits, discriminatorMisfits_eq]; rfl
    | _ => rfl
  | texts =>
    cases v with
    | array items =>
      rw [misfits]
      show _ = texts.inner (.array items)
      rw [inner, parts, List.flatMap_def, List.map_map, List.mapIdx_eq_zipIdx_map]
      congr 2
      funext ⟨x, i⟩
      cases x <;> rfl
    | _ => rfl
  | item => cases v <;> rfl
  | text => cases v <;> rfl

/-! ## The parts of a value -/

section parts
variable {x : Part}

theorem of_mem_filterMap_part? {of? : String → Option Position}
    (h : x ∈ members.filterMap (part? of?)) :
    ∃ key, (key, x.value) ∈ members ∧ of? key = some x.position ∧ x.step = .key key := by
  obtain ⟨⟨key, value⟩, hmem, hx⟩ := List.mem_filterMap.mp h
  obtain ⟨q, hq, rfl⟩ := Option.map_eq_some_iff.mp hx
  exact ⟨key, hmem, hq, rfl⟩

/-- A part is a member or an item of the value. -/
theorem mem_or_getElem?_of_mem_parts (h : x ∈ p.parts v) :
    (∃ members key, v = .object members ∧ (key, x.value) ∈ members ∧ x.step = .key key) ∨
      ∃ items i, v = .array items ∧ items[i]? = some x.value ∧ x.step = .index i := by
  unfold parts at h
  split at h
  case h_5 =>
    obtain ⟨⟨value, i⟩, hmem, rfl⟩ := List.mem_map.mp h
    exact .inr ⟨_, i, rfl, List.mem_zipIdx_iff_getElem?.mp hmem, rfl⟩
  case h_6 => cases h
  all_goals
    obtain ⟨key, hmem, -, hstep⟩ := of_mem_filterMap_part? h
    exact .inl ⟨_, key, rfl, hmem, hstep⟩

theorem height_lt_of_mem_parts (h : x ∈ p.parts v) : x.value.height < v.height := by
  obtain ⟨members, key, rfl, hmem, -⟩ | ⟨items, i, rfl, hi, -⟩ := mem_or_getElem?_of_mem_parts h
  · exact Value.height_lt_of_mem_members hmem
  · exact Value.height_lt_of_mem_items (List.mem_of_getElem? hi)

/-- What holds of a value at a place when it holds of its parts holds of every value. -/
theorem part_induction {motive : Position → Value → Prop}
    (parts : ∀ p v, (∀ x ∈ p.parts v, motive x.position x.value) → motive p v) (p : Position)
    (v : Value) : motive p v := by
  induction hn : v.height using Nat.strongRecOn generalizing p v with
  | ind n ih =>
    subst hn
    exact parts p v fun x hx => ih _ (height_lt_of_mem_parts hx) x.position x.value rfl

theorem distinctKeys_of_mem_parts (hv : v.distinctKeys = true) (h : x ∈ p.parts v) :
    x.value.distinctKeys = true := by
  obtain ⟨members, key, rfl, hmem, -⟩ | ⟨items, i, rfl, hi, -⟩ := mem_or_getElem?_of_mem_parts h
  · exact (Value.distinctKeys_object_iff.mp hv).2 _ hmem
  · exact Value.distinctKeys_array_iff.mp hv _ (List.mem_of_getElem? hi)

theorem reaches_of_mem_parts (h : x ∈ p.parts v) : v.Reaches [x.step.token] x.value := by
  obtain ⟨members, key, rfl, hmem, hstep⟩ | ⟨items, i, rfl, hi, hstep⟩ :=
    mem_or_getElem?_of_mem_parts h
  · rw [hstep]
    exact .member_of_mem hmem
  · rw [hstep]
    exact .item_of_getElem? hi

/-- The step to a member keeps it apart from the other members. -/
theorem nodup_steps_members {of? : String → Option Position} {members : List (String × Value)}
    (h : (members.map (·.1)).Nodup) :
    ((members.filterMap (part? of?)).map Part.step).Nodup := by
  have hsteps : ((members.filterMap (part? of?)).map Part.step).Sublist
      (members.map fun entry => .key entry.1) := by
    clear h
    induction members with
    | nil => exact .slnil
    | cons entry rest ih =>
      rw [List.filterMap_cons, List.map_cons]
      unfold part?
      cases of? entry.1 with
      | none => exact ih.cons _
      | some q => exact ih.cons_cons _
  refine hsteps.nodup ?_
  rw [show (members.map fun entry => Step.key entry.1) = (members.map (·.1)).map Step.key by simp]
  exact h.map fun _ _ => Step.key.inj

/-- Different parts stand at different steps. -/
theorem nodup_steps (hv : v.distinctKeys = true) : ((p.parts v).map Part.step).Nodup := by
  have hmembers : ∀ {members : List (String × Value)}, (Value.object members).distinctKeys = true →
      (members.map (·.1)).Nodup := fun h => (Value.distinctKeys_object_iff.mp h).1
  unfold parts
  split
  case h_5 items =>
    rw [List.map_map, show Part.step ∘ (fun entry : Value × Nat => ⟨.index entry.2, item, entry.1⟩)
      = Step.index ∘ Prod.snd from rfl, ← List.map_map, List.zipIdx_map_snd]
    exact (List.nodup_range' _).map fun _ _ => Step.index.inj
  case h_6 => exact List.nodup_nil
  all_goals exact nodup_steps_members (hmembers hv)

/-- What may be a schema or null stands under `elements` or `values`. -/
theorem step_of_mem_parts_of_optional (h : x ∈ p.parts v) (hx : x.position = optional) :
    x.step = .key "elements" ∨ x.step = .key "values" := by
  unfold parts at h
  split at h
  case h_1 | h_2 =>
    obtain ⟨key, -, hkey, hstep⟩ := of_mem_filterMap_part? h
    rw [hx] at hkey
    unfold ofKeyword? at hkey
    rw [hstep]
    split at hkey <;> simp_all
  case h_3 =>
    obtain ⟨key, -, hkey, -⟩ := of_mem_filterMap_part? h
    rw [hx] at hkey
    cases hkey
  case h_4 =>
    obtain ⟨key, -, hkey, -⟩ := of_mem_filterMap_part? h
    rw [hx] at hkey
    unfold ofPart? at hkey
    split at hkey <;> cases hkey
  case h_5 =>
    obtain ⟨_, -, rfl⟩ := List.mem_map.mp h
    cases hx
  case h_6 => cases h

end parts

/-! ## Places inside a value -/

/-- The path leads from a place that holds one value to a place that holds another. -/
inductive Leads : Position → Value → List Step → Position → Value → Prop
  | here {p : Position} {v : Value} : Leads p v [] p v
  | part {p q : Position} {v w : Value} {x : Part} {path : List Step} (hx : x ∈ p.parts v)
      (h : Leads x.position x.value path q w) : Leads p v (x.step :: path) q w

namespace Leads

variable {path : List Step}

theorem reaches (h : Leads p v path q w) : v.Reaches (path.map Step.token) w := by
  induction h with
  | here => exact .here
  | part hx _ ih => exact (reaches_of_mem_parts hx).append ih

theorem distinctKeys (h : Leads p v path q w) (hv : v.distinctKeys = true) :
    w.distinctKeys = true := by
  induction h with
  | here => exact hv
  | part hx _ ih => exact ih (distinctKeys_of_mem_parts hv hx)

/-- The place at the end of a path, seen from the last value on the way to it. -/
theorem last (h : Leads p v path q w) :
    (path = [] ∧ p = q ∧ v = w) ∨ ∃ front r u, ∃ x ∈ parts r u, Leads p v front r u ∧
      path = front ++ [x.step] ∧ x.position = q ∧ x.value = w := by
  induction h with
  | here => exact .inl ⟨rfl, rfl, rfl⟩
  | @part p q v w x path hx _ ih =>
    refine .inr ?_
    rcases ih with ⟨rfl, hq, hw⟩ | ⟨front, r, u, y, hy, hfront, rfl, hq, hw⟩
    · exact ⟨[], p, v, x, hx, .here, rfl, hq, hw⟩
    · exact ⟨x.step :: front, r, u, y, hy, .part hx hfront, rfl, hq, hw⟩

end Leads

end Position

end SchemaForms
