/-
  Computations that may fail and that tell what they do.

  A traced result is a list of events with a value or an error. Events that were
  told before a failure are kept, so the events of a computation are always those
  of the steps that were taken. `Traced.bind_of_ok` and `Traced.bind_of_error` say
  what sequencing does.
-/
import NodeHeader.Event

namespace NodeHeader

/-- The outcome of a computation with the events on the way to it. -/
structure Traced (ε α : Type) where
  /-- What was done, in order. -/
  events : List Event
  /-- The value, or what stopped the computation. -/
  result : Except ε α

namespace Traced

variable {ε δ α β : Type}

instance : Monad (Traced ε) where
  pure a := ⟨[], .ok a⟩
  bind x f :=
    match x.result with
    | .error e => ⟨x.events, .error e⟩
    | .ok a => ⟨x.events ++ (f a).events, (f a).result⟩

/-- Tells an event. -/
def tell (event : Event) : Traced ε Unit :=
  ⟨[event], .ok ()⟩

/-- Stops with an error. -/
def fail (error : ε) : Traced ε α :=
  ⟨[], .error error⟩

/-- A computation that tells nothing. -/
def ofExcept (x : Except ε α) : Traced ε α :=
  ⟨[], x⟩

/-- The same computation with another description of its error. -/
def mapError (f : ε → δ) (x : Traced ε α) : Traced δ α :=
  ⟨x.events, x.result.mapError f⟩

@[simp] theorem events_pure (a : α) : (pure a : Traced ε α).events = [] := rfl

@[simp] theorem result_pure (a : α) : (pure a : Traced ε α).result = .ok a := rfl

/-- A sequence goes on with the value of its first part, behind the events of that. -/
theorem bind_of_ok {x : Traced ε α} {a : α} (h : x.result = .ok a) (f : α → Traced ε β) :
    x >>= f = ⟨x.events ++ (f a).events, (f a).result⟩ := by
  simp only [bind, h]

/-- It stops with the error of its first part. -/
theorem bind_of_error {x : Traced ε α} {e : ε} (h : x.result = .error e)
    (f : α → Traced ε β) : x >>= f = ⟨x.events, .error e⟩ := by
  simp only [bind, h]

/-- The result of a sequence is that of its parts in sequence. -/
theorem result_bind (x : Traced ε α) (f : α → Traced ε β) :
    (x >>= f).result = x.result.bind fun a => (f a).result := by
  cases h : x.result with
  | error e => rw [bind_of_error h]; rfl
  | ok a => rw [bind_of_ok h]; rfl

end Traced

end NodeHeader
