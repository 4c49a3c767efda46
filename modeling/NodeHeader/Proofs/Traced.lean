/-
  Taking sequences of computations apart.

  A sequence has a value if each part has one, and it has an error if the first part has it, or
  the first part has a value and the rest has the error. A description of errors changes
  errors and nothing else.

  Two traced computations are in step (`Traced.InStep`) if the second tells what the first does
  in other words and ends alike. Sequences are in step if their parts are
  (`Traced.InStep.bind`).
-/
import NodeHeader.Traced

namespace Except

variable {ε δ α β : Type}

/-- A sequence succeeds if its first part does and what follows does with its value. -/
theorem bind_eq_ok_iff {x : Except ε α} {f : α → Except ε β} {b : β} :
    x >>= f = .ok b ↔ ∃ a, x = .ok a ∧ f a = .ok b := by
  constructor
  · intro h
    cases x with
    | error e => cases h
    | ok a => exact ⟨a, rfl, h⟩
  · rintro ⟨a, rfl, h⟩
    exact h

theorem bind_eq_error_iff {x : Except ε α} {f : α → Except ε β} {e : ε} :
    x >>= f = .error e ↔ x = .error e ∨ ∃ a, x = .ok a ∧ f a = .error e := by
  constructor
  · intro h
    cases x with
    | error e' =>
      obtain rfl : e' = e := Except.error.inj h
      exact .inl rfl
    | ok a => exact .inr ⟨a, rfl, h⟩
  · rintro (rfl | ⟨a, rfl, h⟩)
    · rfl
    · exact h

theorem map_eq_ok_iff {x : Except ε α} {f : α → β} {b : β} :
    x.map f = .ok b ↔ ∃ a, x = .ok a ∧ f a = b := by
  constructor
  · intro h
    cases x with
    | error e => cases h
    | ok a => exact ⟨a, rfl, Except.ok.inj h⟩
  · rintro ⟨a, rfl, rfl⟩
    rfl

theorem mapError_mapError {γ : Type} (x : Except ε α) (f : ε → δ) (g : δ → γ) :
    (x.mapError f).mapError g = x.mapError (g ∘ f) := by
  cases x <;> rfl

theorem mapError_eq_ok_iff {x : Except ε α} {f : ε → δ} {a : α} :
    x.mapError f = .ok a ↔ x = .ok a := by
  constructor
  · intro h
    cases x with
    | error e => cases h
    | ok b => rw [Except.ok.inj h]
  · rintro rfl
    rfl

theorem mapError_eq_error_iff {x : Except ε α} {f : ε → δ} {d : δ} :
    x.mapError f = .error d ↔ ∃ e, x = .error e ∧ f e = d := by
  constructor
  · intro h
    cases x with
    | error e => exact ⟨e, rfl, Except.error.inj h⟩
    | ok a => cases h
  · rintro ⟨e, rfl, rfl⟩
    rfl

end Except

namespace NodeHeader.Traced

variable {ε δ α β α' β' : Type}

/-- The same computation with its events and its error told otherwise. -/
def retold (g : Event → Event) (k : ε → δ) (x : Traced ε α) : Traced δ α :=
  ⟨x.events.map g, x.result.mapError k⟩

/-- The second computation tells what the first does otherwise, and fails when the first does;
their values are related. -/
inductive InStep (g : Event → Event) (k : ε → δ) (R : α → β → Prop) :
    Traced ε α → Traced δ β → Prop
  | ok (events : List Event) {a : α} {b : β} (h : R a b) :
    InStep g k R ⟨events, .ok a⟩ ⟨events.map g, .ok b⟩
  | error (events : List Event) (e : ε) :
    InStep g k R ⟨events, .error e⟩ ⟨events.map g, .error (k e)⟩

variable {g : Event → Event} {k : ε → δ} {R : α → β → Prop} {S : α' → β' → Prop}

theorem result_retold (x : Traced ε α) : (x.retold g k).result = x.result.mapError k := rfl

/-- A computation goes in step with itself retold. -/
theorem inStep_retold (x : Traced ε α) : InStep g k Eq x (x.retold g k) := by
  obtain ⟨events, result⟩ := x
  cases result with
  | error e => exact .error events e
  | ok a => exact .ok events rfl

theorem InStep.eq_retold {x : Traced ε α} {y : Traced δ α} (h : InStep g k Eq x y) :
    y = x.retold g k := by
  cases h with
  | error events e => rfl
  | ok events h =>
    subst h
    rfl

/-- Sequences go in step if their parts do. -/
theorem InStep.bind {x : Traced ε α} {y : Traced δ β} (h : InStep g k R x y)
    {u : α → Traced ε α'} {v : β → Traced δ β'}
    (hnext : ∀ a b, R a b → InStep g k S (u a) (v b)) : InStep g k S (x >>= u) (y >>= v) := by
  cases h with
  | error events e => exact .error events e
  | @ok events a b hab =>
    have hrest : InStep g k S (u a) (v b) := hnext a b hab
    -- what is told before goes in front on both sides
    show InStep g k S ⟨events ++ (u a).events, (u a).result⟩
      ⟨events.map g ++ (v b).events, (v b).result⟩
    generalize u a = x' at hrest
    generalize v b = y' at hrest
    cases hrest with
    | error events' e =>
      rw [← List.map_append]
      exact .error _ e
    | ok events' h =>
      rw [← List.map_append]
      exact .ok _ h

theorem retold_bind (x : Traced ε α) (u : α → Traced ε α') :
    (x >>= u).retold g k = x.retold g k >>= fun a => (u a).retold g k := by
  have h : InStep g k Eq (x >>= u) (x.retold g k >>= fun a => (u a).retold g k) :=
    (inStep_retold x).bind fun a b hab => by
      subst hab
      exact inStep_retold (u a)
  exact h.eq_retold.symm

end NodeHeader.Traced
