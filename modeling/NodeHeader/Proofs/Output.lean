/-
  Headers that cannot be written.

  A write that fails, at whichever step, leaves the tree as it was and tells nothing; its error
  names the target (`writeAtomic_leaves_no_trace`). It fails exactly if no file can be put at the
  target, or a step is interfered with.
-/
import NodeHeader.Output
import NodeHeader.Proofs.Files.Replacement
import NodeHeader.Proofs.Files.Temporaries

namespace NodeHeader

open NodeHeader.Files (Interference Path Temporaries Tree)
open NodeHeader.Text (Bytes)

namespace Files.Tree

variable {T : Temporaries} {t : Tree} {p : Path}

theorem not_replaceable_of_empty (h : p.bytes = []) : ¬ t.Replaceable T p := by
  rintro ⟨-, ⟨loc, hslot, -⟩, -⟩
  obtain ⟨hcheck, -⟩ := slot_eq_ok_iff.1 hslot
  simp [Path.check, h] at hcheck

theorem not_replaceable_of_endsInSlash (h : p.endsInSlash = true) : ¬ t.Replaceable T p := by
  rintro ⟨-, -, hslash⟩
  rw [h] at hslash
  cases hslash

theorem not_replaceable_of_parent (hT : T.Lawful)
    (h : ∀ directory, t.locateDirectory (t.start p.directory) p.directory.names ≠ .ok directory) :
    ¬ t.Replaceable T p := by
  rintro ⟨⟨_, hmade⟩, -, -⟩
  obtain ⟨⟨directory, name, hdirectory, -⟩, -⟩ := hT.create_ok hmade
  exact h directory hdirectory

theorem not_replaceable_of_directory {loc : Location} (hslot : t.slot p = .ok loc)
    (h : t.find? loc = some .directory) : ¬ t.Replaceable T p := by
  rintro ⟨-, ⟨loc', hslot', hdirectory⟩, -⟩
  obtain rfl : loc = loc' := Except.ok.inj (hslot.symm.trans hslot')
  exact hdirectory h

end Files.Tree

section Write

variable {T : Temporaries} {t : Tree} {target : Path} {contents : Bytes}
  {interference : Interference}

theorem writeAtomic_of_fails (hT : T.Lawful) {step : Files.Step} {fault : Files.Fault}
    (h : t.ReplacementFails T target contents interference step fault) :
    writeAtomic T t target contents interference =
      (t, ⟨[], .error (.unwritable target fault)⟩) := by
  rw [writeAtomic, Tree.replace_of_fails hT h]
  rfl

/-- A write that does not fail replaces the file and tells so. -/
theorem exists_writeAtomic_of_not_fails (hT : T.Lawful)
    (h : ∀ step fault, ¬ t.ReplacementFails T target contents interference step fault) :
    ∃ t' loc, writeAtomic T t target contents interference =
        (t', ⟨writeEvents (t.fileMode? target interference).isSome target contents, .ok ()⟩) ∧
      t.Replaced target contents interference t' loc := by
  obtain ⟨-, -, t', loc, hreplace, hreplaced⟩ := Tree.exists_replaced_of_not_fails hT h
  refine ⟨t', loc, ?_, hreplaced⟩
  rw [writeAtomic, hreplace]

end Write

/-- Whichever step of a write fails first, the tree is left as it was, nothing is told, and the
error names the target as it was given, whoever makes the temporary files. A write has no other
error. It fails exactly if no file can be put at the target, or a step is interfered with; no file
can be put at an empty path, at one with a slash at its end, in a directory that is missing or is
none, and over a directory. -/
theorem writeAtomic_leaves_no_trace (T : Temporaries) (hT : T.Lawful) (t : Tree) (target : Path)
    (contents : Bytes) (interference : Interference) :
    (∀ step fault, t.ReplacementFails T target contents interference step fault →
      writeAtomic T t target contents interference =
        (t, ⟨[], .error (.unwritable target fault)⟩)) ∧
    (∀ error, (writeAtomic T t target contents interference).2.result = .error error →
      ∃ step fault, t.ReplacementFails T target contents interference step fault ∧
        error = .unwritable target fault) ∧
    ((∃ step fault, t.ReplacementFails T target contents interference step fault) ↔
      ¬ t.Replaceable T target ∨
        ∃ step ∈ t.replacementSteps target interference, interference.fault step ≠ none) ∧
    (target.bytes = [] ∨ target.endsInSlash = true ∨
        (∀ directory, t.locateDirectory (t.start target.directory) target.directory.names ≠
          .ok directory) ∨
        (∃ loc, t.slot target = .ok loc ∧ t.find? loc = some .directory) →
      ¬ t.Replaceable T target) := by
  refine ⟨fun step fault h => writeAtomic_of_fails hT h, fun error herror => ?_,
    Tree.exists_replacementFails_iff hT, ?_⟩
  · by_cases hfails : ∃ step fault, t.ReplacementFails T target contents interference step fault
    · obtain ⟨step, fault, h⟩ := hfails
      rw [writeAtomic_of_fails hT h] at herror
      exact ⟨step, fault, h, (Except.error.inj herror).symm⟩
    · obtain ⟨t', loc, hwrite, -⟩ := exists_writeAtomic_of_not_fails hT fun step fault h =>
        hfails ⟨step, fault, h⟩
      rw [hwrite] at herror
      cases herror
  · rintro (h | h | h | ⟨loc, hslot, h⟩)
    · exact Tree.not_replaceable_of_empty h
    · exact Tree.not_replaceable_of_endsInSlash h
    · exact Tree.not_replaceable_of_parent hT h
    · exact Tree.not_replaceable_of_directory hslot h

/-- A disk that fills up while a private file is replaced. By then there is a temporary file with
the permission bits of the old one and part of the contents, but in the end only the old file is
there. -/
theorem writeAtomic_full_disk : ∃ (t t₁ : Tree) (temporary : Files.Location)
    (interference : Interference) (full : Files.Fault),
    t.find? [[0x77], [0x61]] = some (.file 0o600 [0x6F, 0x6C, 0x64]) ∧
      Temporaries.numbered.create t (Path.directory ⟨[0x61]⟩) Tree.usualMode =
        .ok (t₁, temporary) ∧
      (Tree.perform interference (Tree.preparing (t.fileMode? ⟨[0x61]⟩) [0x6E, 0x65] temporary)
        t₁).1.find? temporary = some (.file 0o600 [0x6E]) ∧
      t.ReplacementFails .numbered ⟨[0x61]⟩ [0x6E, 0x65] interference .write full ∧
      writeAtomic .numbered t ⟨[0x61]⟩ [0x6E, 0x65] interference =
        (t, ⟨[], .error (.unwritable ⟨[0x61]⟩ full)⟩) := by
  let t : Tree :=
    (Tree.empty [[0x77]] 0o022).set [[0x77], [0x61]] (.file 0o600 [0x6F, 0x6C, 0x64])
  let full : Files.Fault := .other "No space left on device (os error 28)"
  let interference : Interference :=
    { fault := fun step => if step = .write then some full else none
      through := 1 }
  let temporary : Files.Location := [[0x77], Temporaries.numberedName 65535]
  have hmode : t.fileMode? ⟨[0x61]⟩ = some 0o600 := by rfl
  have hnone : t.find? temporary = none := by decide
  have hplace : t.locateDirectory (t.start (Path.directory ⟨[0x61]⟩))
      (Path.names (Path.directory ⟨[0x61]⟩)) = .ok [[0x77]] := by rfl
  have hmade := Temporaries.createNumbered_of_find?_eq_none (by decide) (by decide) hplace hnone
    Tree.usualMode
  have hwrite : interference.fault .write = some full := by rfl
  have hpartly := Tree.perform_preparing_of_write (some 0o600) (t.newMode Tree.usualMode)
    [0x6E, 0x65] (Tree.not_isPrefix_of_find?_eq_none hnone) rfl hwrite
  have hsteps : t.replacementSteps ⟨[0x61]⟩ interference =
      [.create, .setMode] ++ .write :: [.sync, .rename] := by rfl
  have hfails : t.ReplacementFails .numbered ⟨[0x61]⟩ [0x6E, 0x65] interference .write full :=
    .interfered hsteps (by decide) (.inr ⟨_, hmade⟩) rfl
  have hready : (t.set temporary (.file 0o600 [0x6E])).find? temporary =
      some (.file 0o600 [0x6E]) := by decide
  refine ⟨t, _, temporary, interference, full, by decide, hmade, ?_, hfails, ?_⟩
  · rw [hmode]
    exact (congrArg (fun result => result.1.find? temporary) hpartly).trans hready
  · exact (writeAtomic_leaves_no_trace .numbered Temporaries.numbered_lawful t _ _
      interference).1 _ _ hfails

end NodeHeader
