import SchemaForms.Report

/-!
# Traces of a walk

A walk through schema and document finds violations one after another and either comes to its end
or halts before it. A `Walk` is told how many violations were found before it starts, because the
limit on violations counts those of the whole walk; `Walk.andThen` goes on with a second walk unless
the first one halted.
-/

namespace SchemaForms

/-- What can go wrong in a walk under a schema that was never checked, or on a document with a leaf
that is no JSON value. -/
inductive WalkFault where
  /-- A reference in a schema without definitions. -/
  | noDefinitions
  | missingDefinition (name : String)
  | unknownType (typeName : String)
  | notJson (className : String)
  deriving DecidableEq, Repr

/-- Why a walk halts before its end. -/
inductive Halt where
  /-- As many violations as were asked for. -/
  | errorLimit
  /-- A reference inside as many others as may be open. -/
  | tooDeep
  /-- More nested steps than the stack holds. -/
  | stackExhausted
  | fault (cause : WalkFault)
  deriving DecidableEq, Repr

/-- What a walk found, and why it halted if it did not come to its end. -/
structure Trace where
  violations : List Violation
  halt : Option Halt
  deriving DecidableEq, Repr

/-- A walk, given the number of violations found before it. -/
def Walk := (found : Nat) → Trace

namespace Walk

/-- The walk that finds nothing and ends. -/
def done : Walk := fun _ => ⟨[], none⟩

/-- The walk that halts at once. -/
def halt (cause : Halt) : Walk := fun _ => ⟨[], some cause⟩

/-- The walk that finds one violation, and halts if this is the one that fills the limit. A limit
of zero is never filled. -/
def report (limit : Nat) (v : Violation) : Walk := fun found =>
  ⟨[v], if found + 1 = limit then some .errorLimit else none⟩

/-- The first walk and, unless it halts, the second one. -/
def andThen (first second : Walk) : Walk := fun found =>
  match first found with
  | ⟨violations, some cause⟩ => ⟨violations, some cause⟩
  | ⟨violations, none⟩ =>
    let rest := second (found + violations.length)
    ⟨violations ++ rest.violations, rest.halt⟩

/-- One walk after another, up to the first that halts. -/
def inTurn : List Walk → Walk
  | [] => done
  | walk :: rest => walk.andThen (inTurn rest)

end Walk

end SchemaForms
