import SchemaForms.Pointer
import SchemaForms.Schema.Wire
import SchemaForms.Value.Display

/-!
# The wire shape of schemas

A document has the wire shape of a schema if every known keyword holds a value of the right kind,
at every depth. `nodeMisfits` collects the values that do not; `Schema.decode` reports one: the
shallowest, and among those the last in the order of paths. Under `elements` and `values`, which may
be `null` or a schema, the misfits of both readings are collected below one misfit of the keyword,
and the deepest of them is reported in its place if it is the only deepest one.
-/

namespace SchemaForms

/-- A step from a value to a part of it. -/
inductive Step where
  | index (i : Nat)
  | key (name : String)
  deriving DecidableEq, Repr

namespace Step

/-- The token of a step in a pointer. -/
def token : Step → String
  | index i => toString i
  | key name => name

/-- The order of steps: numbers by size, names by code point. -/
def order : Step → Step → Ordering
  | index i, index j => compare i j
  | index _, key _ => .lt
  | key _, index _ => .gt
  | key a, key b => compare a b

end Step

/-- The order of paths, step by step; a path stands behind those that it continues. -/
def pathOrder : List Step → List Step → Ordering
  | [], [] => .eq
  | [], _ :: _ => .lt
  | _ :: _, [] => .gt
  | a :: as, b :: bs => (a.order b).then (pathOrder as bs)

/-- What a value ought to have been. -/
inductive Expected where
  | object
  | objectOrNull
  | arrayOrNull
  | string
  | stringOrNull
  | null
  /-- One of the readings of a keyword that has two. -/
  | alternative
  deriving DecidableEq, Repr

namespace Expected

/-- What is said of a value that is something else. -/
def wording : Expected → String
  | object => " is not of type 'object'"
  | objectOrNull => " is not of type 'object', 'null'"
  | arrayOrNull => " is not of type 'array', 'null'"
  | string => " is not of type 'string'"
  | stringOrNull => " is not of type 'string', 'null'"
  | null => " is not of type 'null'"
  | alternative => " is not valid under any of the given schemas"

end Expected

/-- A value that is not what it ought to be, at the end of a path. -/
inductive Misfit where
  | mismatch (path : List Step) (culprit : Value) (expected : Expected)
  /-- No reading fits; `context` has the misfits of every reading, with paths from the value on. -/
  | noAlternative (path : List Step) (culprit : Value) (context : List Misfit)

namespace Misfit

/-- The path to the value. -/
def path : Misfit → List Step
  | mismatch path _ _ => path
  | noAlternative path _ _ => path

/-- The value itself. -/
def culprit : Misfit → Value
  | mismatch _ culprit _ => culprit
  | noAlternative _ culprit _ => culprit

/-- Whether the value had several readings. -/
def hasAlternatives : Misfit → Bool
  | mismatch _ _ _ => false
  | noAlternative _ _ _ => true

/-- The misfit seen from one step further up. -/
def under (step : Step) : Misfit → Misfit
  | mismatch path culprit expected => mismatch (step :: path) culprit expected
  | noAlternative path culprit context => noAlternative (step :: path) culprit context

/-- The order of misfits: deeper before shallower, then by path, then those with several readings
before others. -/
def order (a b : Misfit) : Ordering :=
  (compare b.path.length a.path.length).then <|
    (pathOrder a.path b.path).then (compare (!a.hasAlternatives) (!b.hasAlternatives))

end Misfit

/-! ## Collecting misfits -/

/-- The misfit of a keyword that holds a string. -/
def stringMisfits (key : String) (v : Value) : List Misfit :=
  match v with
  | .null | .string _ => []
  | _ => [.mismatch [.key key] v .stringOrNull]

/-- The misfits among the values of an enumeration. -/
def enumMisfits (key : String) (v : Value) : List Misfit :=
  match v with
  | .null => []
  | .array items => (items.mapIdx fun i item =>
      match item with
      | .string _ => []
      | _ => [.mismatch [.key key, .index i] item .string]).flatten
  | _ => [.mismatch [.key key] v .arrayOrNull]

mutual
/-- The misfits of a value that stands for a schema. -/
def nodeMisfits : Value → List Misfit
  | .object members => memberMisfits members
  | v => [.mismatch [] v .object]

/-- The misfits of keywords and their values. -/
def memberMisfits : List (String × Value) → List Misfit
  | [] => []
  | (key, v) :: rest =>
    (match key with
      | "definitions" | "properties" | "optionalProperties" =>
        (mapMisfits v).map (Misfit.under (.key key))
      | "ref" | "type" => stringMisfits key v
      | "enum" => enumMisfits key v
      | "elements" | "values" => optionalMisfits key v
      | "discriminator" =>
        match v with
        | .null => []
        | .object parts => (discriminatorMisfits parts).map (Misfit.under (.key key))
        | _ => [.mismatch [.key key] v .objectOrNull]
      | _ => []) ++ memberMisfits rest

/-- The misfit of a keyword that holds `null` or a schema. -/
def optionalMisfits (key : String) : Value → List Misfit
  | .null => []
  | .object members =>
    match memberMisfits members with
    | [] => []
    | found => [.noAlternative [.key key] (.object members)
        (.mismatch [] (.object members) .null :: found)]
  | v => [.noAlternative [.key key] v [.mismatch [] v .null, .mismatch [] v .object]]

/-- The misfits of a value that stands for a map of schemas. -/
def mapMisfits : Value → List Misfit
  | .null => []
  | .object members => entryMisfits members
  | v => [.mismatch [] v .objectOrNull]

/-- The misfits of the schemas of a map. -/
def entryMisfits : List (String × Value) → List Misfit
  | [] => []
  | (key, v) :: rest => (nodeMisfits v).map (Misfit.under (.key key)) ++ entryMisfits rest

/-- The misfits of the parts of a tagged union. -/
def discriminatorMisfits : List (String × Value) → List Misfit
  | [] => []
  | (key, v) :: rest =>
    (match key with
      | "tag" => stringMisfits key v
      | "mapping" => (mapMisfits v).map (Misfit.under (.key key))
      | _ => []) ++ discriminatorMisfits rest
end

/-! ## Choosing one -/

/-- The value that is reported, at the end of its path from the root. -/
structure Culprit where
  path : List Step
  value : Value
  expected : Expected

mutual
/-- The value to report for a misfit. -/
def Misfit.settle : Misfit → Culprit
  | .mismatch path culprit expected => ⟨path, culprit, expected⟩
  | .noAlternative path culprit context =>
    match (settleAll context).mergeSort fun a b => (a.1.order b.1).isLE with
    | (first, found) :: (second, _) :: _ =>
      if first.order second = .eq then ⟨path, culprit, .alternative⟩
      else { found with path := path ++ found.path }
    | [(_, found)] => { found with path := path ++ found.path }
    | [] => ⟨path, culprit, .alternative⟩

/-- Every misfit with the value to report for it. -/
def Misfit.settleAll : List Misfit → List (Misfit × Culprit)
  | [] => []
  | misfit :: rest => (misfit, settle misfit) :: settleAll rest
end

/-- The last misfit in order; of equal ones the first. -/
def lastMisfit? : List Misfit → Option Misfit
  | [] => none
  | misfit :: rest =>
    some (rest.foldl (fun best m => if m.order best = .gt then m else best) misfit)

/-- The value to report for a document that has not the wire shape. -/
def culprit? (v : Value) : Option Culprit :=
  (lastMisfit? (nodeMisfits v)).map Misfit.settle

/-! ## What is shown on the way -/

mutual
/-- The values that have two readings in a value that stands for a schema. What stands inside one of
them is not listed again. -/
def nodeAlternatives : Value → List Value
  | .object members => memberAlternatives members
  | _ => []

/-- The values that have two readings under keywords. -/
def memberAlternatives : List (String × Value) → List Value
  | [] => []
  | (key, v) :: rest =>
    (match key with
      | "definitions" | "properties" | "optionalProperties" => mapAlternatives v
      | "elements" | "values" => [v]
      | "discriminator" =>
        match v with
        | .object parts => discriminatorAlternatives parts
        | _ => []
      | _ => []) ++ memberAlternatives rest

/-- The values that have two readings in a map of schemas. -/
def mapAlternatives : Value → List Value
  | .object members => entryAlternatives members
  | _ => []

/-- The values that have two readings in the schemas of a map. -/
def entryAlternatives : List (String × Value) → List Value
  | [] => []
  | (_, v) :: rest => nodeAlternatives v ++ entryAlternatives rest

/-- The values that have two readings in the parts of a tagged union. -/
def discriminatorAlternatives : List (String × Value) → List Value
  | [] => []
  | (key, v) :: rest =>
    (match key with
      | "mapping" => mapAlternatives v
      | _ => []) ++ discriminatorAlternatives rest
end

/-- The values that a check puts into words: those that are misfits, and those with two readings,
which are put into words whether or not a reading fits. -/
def shownValues (v : Value) : List Value :=
  (nodeMisfits v).map Misfit.culprit ++ nodeAlternatives v

/-! ## Decoding -/

/-- Why a document is no schema. -/
inductive DecodeFault where
  /-- It has not the wire shape, which is told of the value at a pointer. -/
  | misfit (detail pointer : String)
  /-- A value that the check puts into words has an integer that is too long to be shown. -/
  | tooLongToShow
  deriving DecidableEq, Repr

namespace DecodeFault

/-- The fault of a value that is reported. -/
def ofCulprit (c : Culprit) : DecodeFault :=
  .misfit (c.value.display ++ c.expected.wording) (SchemaForms.pointer (c.path.map Step.token))

/-- The wording of a fault. -/
def wording : DecodeFault → String
  | misfit detail pointer =>
    let place := if pointer = "" then "" else " at " ++ Text.quoted pointer
    "jsl: malformed schema document" ++ place ++ ": " ++ detail
  | tooLongToShow => Number.tooLongToShow

end DecodeFault

/-- Decodes a document of the wire shape. -/
def Schema.decode (v : Value) : Except DecodeFault Schema :=
  if (shownValues v).all Value.isShowable then
    match culprit? v with
    | some c => .error (.ofCulprit c)
    | none => .ok (Schema.ofValue v)
  else .error .tooLongToShow

end SchemaForms
