/-
  Single steps.

  Reading definitions and putting a header together tells single steps only
  (`Header.tellsSteps_ofReading`), and these are left out of the log of a run
  (`Event.logEntry?_eq_none_iff`).
-/
import NodeHeader.Output
import NodeHeader.Proofs.Header.Generation

namespace NodeHeader

/-- The log leaves out single steps and nothing else. -/
theorem Event.logEntry?_eq_none_iff {e : Event} : logEntry? e = none ↔ e.level = .debug := by
  cases e <;> simp [level, logEntry?]

/-- A computation tells of nothing but single steps. -/
def Traced.TellsSteps {ε α : Type} (x : Traced ε α) : Prop :=
  ∀ e ∈ x.events, e.level = .debug

namespace Traced.TellsSteps

variable {ε δ α β : Type} {x : Traced ε α}

theorem ofExcept (x : Except ε α) : (Traced.ofExcept x).TellsSteps :=
  fun _ he => nomatch he

theorem pure (a : α) : (Pure.pure a : Traced ε α).TellsSteps :=
  fun _ he => nomatch he

theorem tell {event : Event} (h : event.level = .debug) :
    (Traced.tell event : Traced ε Unit).TellsSteps :=
  fun _ he => List.mem_singleton.1 he ▸ h

theorem mapError (h : x.TellsSteps) (f : ε → δ) : (x.mapError f).TellsSteps :=
  h

/-- What is done in sequence tells single steps if each part does. -/
theorem bind (h : x.TellsSteps) {f : α → Traced ε β} (hf : ∀ a, (f a).TellsSteps) :
    (x >>= f).TellsSteps := by
  intro e he
  cases hresult : x.result with
  | error err =>
    rw [bind_of_error hresult] at he
    exact h e he
  | ok a =>
    rw [bind_of_ok hresult] at he
    rcases List.mem_append.1 he with he | he
    · exact h e he
    · exact hf a e he

/-- Single steps leave no entries in a log. -/
theorem filterMap_eq_nil (h : x.TellsSteps) : x.events.filterMap Event.logEntry? = [] :=
  List.filterMap_eq_nil_iff.2 fun e he => Event.logEntry?_eq_none_iff.2 (h e he)

end Traced.TellsSteps

open Traced (TellsSteps)

/-! ### Reading definitions -/

theorem Reading.tellsSteps_step (r : Reading) (e : Entry) : (r.step e).TellsSteps := by
  refine (TellsSteps.ofExcept _).bind fun node => ?_
  cases r.lineOf[node.name]? with
  | some firstLine => exact .ofExcept _
  | none =>
    refine (TellsSteps.tell rfl).bind fun _ => ?_
    exact (TellsSteps.ofExcept _).bind fun table => .pure _

theorem Reading.tellsSteps_run (r : Reading) (entries : List Entry) :
    (r.run entries).TellsSteps := by
  induction entries generalizing r with
  | nil => exact .pure r
  | cons e rest ih => exact (r.tellsSteps_step e).bind ih

namespace Table

theorem tellsSteps_ofEntries (entries : List Entry) : (ofEntries entries).TellsSteps :=
  (Reading.tellsSteps_run {} entries).bind fun _ => .pure _

theorem tellsSteps_ofContents (source : Files.Path)
    (contents : Except Files.Fault Text.Bytes) : (ofContents source contents).TellsSteps := by
  refine (TellsSteps.ofExcept _).bind fun text => ?_
  exact (TellsSteps.tell rfl).bind fun _ => tellsSteps_ofEntries _

/-! ### Putting a header together -/

theorem tellsSteps_header (t : Table) (o : Options) : (t.header o).TellsSteps := by
  refine (TellsSteps.ofExcept _).bind fun _ e he => ?_
  rcases List.mem_append.1 he with he | he
  · obtain ⟨n, -, rfl⟩ := List.mem_map.1 he
    rfl
  · rw [List.mem_singleton.1 he]
    rfl

end Table

/-- A header of what is read tells of single steps only if the reading does. -/
theorem Header.tellsSteps_ofReading {reading : Traced DefinitionError Table}
    (h : reading.TellsSteps) (o : Options) : (ofReading reading o).TellsSteps :=
  (h.mapError _).bind fun table => table.tellsSteps_header o

end NodeHeader
