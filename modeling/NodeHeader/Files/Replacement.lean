/-
  Replacing a file as a whole.

  New contents first go to a temporary file in the directory of the target, which
  then takes its place, so the target is never seen half written. The new file gets
  the permission bits of the regular file that the path led to. If a step fails, the
  temporary file is given up, however much was done to it, and the tree is as it was.

  A step may fail by itself, or be made to fail from outside, as by a full disk.
-/
import NodeHeader.Files.Temporaries

namespace NodeHeader.Files

open NodeHeader.Text (Bytes)

namespace Tree

/-! ### Working on an open file -/

/-- The tree with other permission bits for the file at a location. -/
def setMode (t : Tree) (loc : Location) (mode : Mode) : Tree :=
  match t.find? loc with
  | some (.file _ contents) => t.set loc (.file mode contents)
  | _ => t

/-- The tree with bytes written behind the contents of the file at a location. -/
def append (t : Tree) (loc : Location) (bytes : Bytes) : Tree :=
  match t.find? loc with
  | some (.file mode contents) => t.set loc (.file mode (contents ++ bytes))
  | _ => t

/-! ### Actions -/

/-- A step and what it does to a tree. -/
structure Action where
  step : Step
  run : Tree → Except Fault Tree
  /-- What is done by the time that a fault from outside befalls the step, if so many bytes got
  through. -/
  partly : Nat → Tree → Tree := fun _ t => t

/-- Carries out actions in order up to the first that fails. Gives the tree that is reached
and the fault, if there is one. -/
def perform (interference : Interference) : List Action → Tree → Tree × Option Fault
  | [], t => (t, none)
  | action :: rest, t =>
    match interference.fault action.step with
    | some fault => (action.partly interference.through t, some fault)
    | none =>
      match action.run t with
      | .error fault => (t, some fault)
      | .ok t' => perform interference rest t'

/-- The actions that make a temporary file ready: it gets permission bits, if there are some to
keep, and the contents. -/
def preparing (kept? : Option Mode) (contents : Bytes) (temporary : Location) : List Action :=
  kept?.toList.map (fun mode =>
    { step := .setMode, run := fun t => return t.setMode temporary mode }) ++
  [{ step := .write
     run := fun t => return t.append temporary contents
     partly := fun through t => t.append temporary (contents.take through) },
   { step := .sync, run := fun t => return t }]

/-- The action that puts it in the place of what a path names. -/
def persisting (T : Temporaries) (p : Path) (temporary : Location) : Action where
  step := .rename
  run t := T.persist t temporary p

/-- The actions that replace what a path names, once there is a temporary file. -/
def replacing (T : Temporaries) (kept? : Option Mode) (p : Path) (contents : Bytes)
    (temporary : Location) : List Action :=
  preparing kept? contents temporary ++ [persisting T p temporary]

/-! ### The replacement -/

/-- The permission bits that are asked for a new file. -/
def usualMode : Mode := 0o644

/-- What is left once a temporary file was worked on: if a step failed, the file is given up. -/
def settle (T : Temporaries) (temporary : Location) :
    Tree × Option Fault → Tree × Except Fault Unit
  | (t, none) => (t, .ok ())
  | (t, some fault) => (T.discard t temporary, .error fault)

/-- The tree in which the contents of the file at a path are replaced, or the tree that is left
by a step that failed, and its fault. -/
def replace (t : Tree) (T : Temporaries) (p : Path) (contents : Bytes)
    (interference : Interference := {}) : Tree × Except Fault Unit :=
  let kept? := t.fileMode? p interference
  match (interference.check .create).bind fun _ => T.create t p.directory usualMode with
  | .error fault => (t, .error fault)
  | .ok (t', temporary) =>
    settle T temporary (perform interference (replacing T kept? p contents temporary) t')

end Tree

end NodeHeader.Files
