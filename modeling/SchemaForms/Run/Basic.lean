import SchemaForms.Run.Event
import SchemaForms.Run.Failure

/-!
# Runs

A `Run` has the events that it told of, in their order, and then a result or a failure. One run
after another tells of the events of both, unless the first one fails.
-/

namespace SchemaForms

/-- The events of a run and what it came to. -/
structure Run (α : Type) where
  events : List Event
  result : Except Failure α

namespace Run

variable {α β ε : Type}

/-- The run that tells of one event. -/
def tell (e : Event) : Run Unit := ⟨[e], .ok ()⟩

/-- The run that fails. -/
def fail (f : Failure) : Run α := ⟨[], .error f⟩

/-- The run that comes to a result, or fails for a cause. -/
def ofExcept (r : Except ε α) (cause : ε → Failure) : Run α := ⟨[], r.mapError cause⟩

/-- One run after another. -/
def andThen (first : Run α) (next : α → Run β) : Run β :=
  match first.result with
  | .error f => ⟨first.events, .error f⟩
  | .ok a => ⟨first.events ++ (next a).events, (next a).result⟩

instance : Monad Run where
  pure a := ⟨[], .ok a⟩
  bind := andThen

end Run

end SchemaForms
