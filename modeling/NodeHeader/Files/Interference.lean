/-
  What comes from outside.

  Much that can go wrong with files is not told by a tree of them: a disk may be full, a file may
  belong to somebody else, and whoever reads the output may have gone. An interference says which
  steps of a run fail for such a reason, and how much gets through before they do.
-/
import NodeHeader.Files.Fault

namespace NodeHeader.Files

/-- The steps of a run that have to do with files or with the standard output. -/
inductive Step where
  /-- Reads the definitions. -/
  | read
  /-- Looks at the file that is to be replaced. -/
  | look
  /-- Makes the temporary file. -/
  | create
  /-- Gives it the permission bits of the file that it replaces. -/
  | setMode
  | write
  /-- Makes sure of the contents. -/
  | sync
  /-- Puts it in the place of the target. -/
  | rename
  /-- Prints to the standard output. -/
  | print
deriving DecidableEq, Repr

/-- What comes from outside in the course of a run. -/
structure Interference where
  /-- The fault that befalls a step. -/
  fault : Step → Option Fault := fun _ => none
  /-- How many bytes get through before a writing or a printing fails. -/
  through : Nat := 0

/-- Lets a step pass that is not interfered with. -/
def Interference.check (interference : Interference) (step : Step) : Except Fault Unit :=
  match interference.fault step with
  | some fault => .error fault
  | none => .ok ()

/-- A step passes exactly if nothing interferes with it. -/
theorem Interference.check_eq_ok_iff {interference : Interference} {step : Step} :
    interference.check step = .ok () ↔ interference.fault step = none := by
  unfold check
  cases interference.fault step <;> simp

theorem Interference.check_eq_error_iff {interference : Interference} {step : Step}
    {fault : Fault} :
    interference.check step = .error fault ↔ interference.fault step = some fault := by
  unfold check
  cases interference.fault step <;> simp

end NodeHeader.Files
