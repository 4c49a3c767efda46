/-
  Replacing a file: when it fails, and what it leaves.

  A temporary file is made with the usual permission bits, gets those of the file that it replaces
  (`Tree.setMode_set`), and then the contents (`Tree.append_set`). So far all is done to the
  temporary file, however far the steps come (`Tree.keepsOthers_of_mem_preparing`), and nothing
  stood at its place.

  `Tree.ReplacementFails` says at which step a replacement fails first, and with which fault: a step
  is interfered with after the steps before it went well, no temporary file can be made, or it
  cannot be renamed. A replacement that fails so leaves the tree as it was
  (`Tree.replace_of_fails`).

  If nothing interferes, a replacement fails exactly if no file can be put at the path
  (`Tree.exists_replacementFails_iff`). One that does not fail puts the file there and changes
  nothing else (`Tree.replace_eq_ok_iff`, `Tree.exists_replaced_of_not_fails`). All of this is so
  whoever makes the temporary files, if only the promises are kept (`Temporaries.Lawful`).
-/
import NodeHeader.Files.Replacement
import NodeHeader.Proofs.Files.Walk
import Mathlib.Tactic.ByContra

namespace NodeHeader.Files.Tree

open NodeHeader.Text (Bytes)

variable {T : Temporaries} {t t' : Tree} {p : Path} {contents : Bytes}
  {interference : Interference}

/-! ### Actions in order -/

theorem perform_append (first second : List Action) (t : Tree) :
    perform interference (first ++ second) t =
      match perform interference first t with
      | (t', none) => perform interference second t'
      | (t', some fault) => (t', some fault) := by
  induction first generalizing t with
  | nil => rfl
  | cons action rest ih =>
    rw [List.cons_append, perform, perform]
    cases interference.fault action.step with
    | some fault => rfl
    | none =>
      cases action.run t with
      | error fault => rfl
      | ok t' => exact ih t'

/-- An action changes a tree at one location only, also if it is broken off. -/
structure Action.KeepsOthers (action : Action) (loc : Location) : Prop where
  run : ∀ t, ∃ t', action.run t = .ok t' ∧ t'.erase loc = t.erase loc
  partly : ∀ through t, (action.partly through t).erase loc = t.erase loc

/-- If each action changes a tree at one location only, so do all of them together, however far
they come. -/
theorem erase_perform (interference : Interference) {loc : Location} {actions : List Action}
    (h : ∀ action ∈ actions, action.KeepsOthers loc) (t : Tree) :
    (perform interference actions t).1.erase loc = t.erase loc := by
  induction actions generalizing t with
  | nil => rfl
  | cons action rest ih =>
    have hfirst := h action List.mem_cons_self
    rw [perform]
    cases interference.fault action.step with
    | some fault => exact hfirst.partly _ t
    | none =>
      obtain ⟨t', hrun, hkeeps⟩ := hfirst.run t
      rw [hrun]
      exact (ih (fun a ha => h a (List.mem_cons_of_mem action ha)) t').trans hkeeps

/-- Actions that cannot fail by themselves are all carried out if nothing interferes. -/
theorem perform_of_free {loc : Location} {actions : List Action}
    (h : ∀ action ∈ actions, action.KeepsOthers loc)
    (hfree : ∀ action ∈ actions, interference.fault action.step = none) (t : Tree) :
    (perform interference actions t).2 = none := by
  induction actions generalizing t with
  | nil => rfl
  | cons action rest ih =>
    obtain ⟨t', hrun, -⟩ := (h action List.mem_cons_self).run t
    rw [perform, hfree action List.mem_cons_self, hrun]
    exact ih (fun a ha => h a (List.mem_cons_of_mem action ha))
      (fun a ha => hfree a (List.mem_cons_of_mem action ha)) t'

/-! ### What the actions do to the temporary file -/

section Temporary

variable {temporary : Location} {mode mode' : Mode} {written bytes : Bytes}

/-- Permission bits that are set do not touch the contents. -/
theorem setMode_set (h : ¬ temporary <+: t.working) :
    (t.set temporary (.file mode written)).setMode temporary mode' =
      t.set temporary (.file mode' written) := by
  have hfound : (t.set temporary (.file mode written)).find? temporary =
      some (.file mode written) := by rw [find?_set_eq, if_pos ⟨rfl, h⟩]
  simp only [setMode, hfound, set_set]

/-- What is written goes behind what is there, and the permission bits stay. -/
theorem append_set (h : ¬ temporary <+: t.working) :
    (t.set temporary (.file mode written)).append temporary bytes =
      t.set temporary (.file mode (written ++ bytes)) := by
  have hfound : (t.set temporary (.file mode written)).find? temporary =
      some (.file mode written) := by rw [find?_set_eq, if_pos ⟨rfl, h⟩]
  simp only [append, hfound, set_set]

@[simp] theorem erase_setMode (t : Tree) (loc : Location) (mode : Mode) :
    (t.setMode loc mode).erase loc = t.erase loc := by
  unfold setMode
  split
  · exact erase_set ..
  · rfl

@[simp] theorem erase_append (t : Tree) (loc : Location) (bytes : Bytes) :
    (t.append loc bytes).erase loc = t.erase loc := by
  unfold append
  split
  · exact erase_set ..
  · rfl

/-- Each action before the renaming concerns the temporary file alone. -/
theorem keepsOthers_of_mem_preparing {kept? : Option Mode} {action : Action}
    (h : action ∈ preparing kept? contents temporary) : action.KeepsOthers temporary := by
  simp only [preparing, List.mem_append, List.mem_cons, List.mem_map, Option.mem_toList,
    List.not_mem_nil, or_false] at h
  rcases h with ⟨mode, -, rfl⟩ | rfl | rfl
  · exact ⟨fun t => ⟨_, rfl, erase_setMode ..⟩, fun _ _ => rfl⟩
  · exact ⟨fun t => ⟨_, rfl, erase_append ..⟩, fun _ _ => erase_append ..⟩
  · exact ⟨fun t => ⟨_, rfl, rfl⟩, fun _ _ => rfl⟩

/-- The steps of a replacement once there is a temporary file, in order. -/
def furtherSteps (kept? : Option Mode) : List Step :=
  kept?.toList.map (fun _ => .setMode) ++ [.write, .sync, .rename]

theorem map_step_replacing (T : Temporaries) (kept? : Option Mode) (p : Path) (contents : Bytes)
    (temporary : Location) :
    (replacing T kept? p contents temporary).map Action.step = furtherSteps kept? := by
  simp [replacing, preparing, persisting, furtherSteps, Function.comp_def]

/-- If nothing interferes, the temporary file gets the permission bits that are kept, if there are
some, and the contents. -/
theorem perform_preparing {kept? : Option Mode} (mode : Mode) (contents : Bytes)
    (h : ¬ temporary <+: t.working)
    (hfree : ∀ step ∈ furtherSteps kept?, interference.fault step = none) :
    perform interference (preparing kept? contents temporary) (t.set temporary (.file mode [])) =
      (t.set temporary (.file (kept?.getD mode) contents), none) := by
  have hwrite : interference.fault .write = none := hfree _ (by simp [furtherSteps])
  have hsync : interference.fault .sync = none := hfree _ (by simp [furtherSteps])
  cases kept? with
  | none => simp [preparing, perform, hwrite, hsync, append_set h, pure, Except.pure]
  | some kept =>
    have hset : interference.fault .setMode = none := hfree _ (by simp [furtherSteps])
    simp [preparing, perform, hset, hwrite, hsync, setMode_set h, append_set h, pure, Except.pure]

/-- If the writing is interfered with, the temporary file has the permission bits that are kept, and
the part of the contents that got through. -/
theorem perform_preparing_of_write (kept? : Option Mode) (mode : Mode) (contents : Bytes)
    {interference : Interference} {fault : Fault}
    (h : ¬ temporary <+: t.working) (hset : interference.fault .setMode = none)
    (hwrite : interference.fault .write = some fault) :
    perform interference (preparing kept? contents temporary) (t.set temporary (.file mode [])) =
      (t.set temporary (.file (kept?.getD mode) (contents.take interference.through)),
        some fault) := by
  cases kept? with
  | none => simp [preparing, perform, hwrite, append_set h]
  | some kept =>
    simp [preparing, perform, hset, hwrite, setMode_set h, append_set h, pure, Except.pure]

end Temporary

/-! ### The renaming -/

/-- The temporary file can be renamed to a place for a file where no directory stands, and it
then stands there and nowhere else. -/
theorem rename_set_eq_ok_iff {temporary : Location} (hnone : t.find? temporary = none)
    {mode : Mode} :
    (t.set temporary (.file mode contents)).rename temporary p = .ok t' ↔
      ∃ loc, t.slot p = .ok loc ∧ p.endsInSlash = false ∧ t.find? loc ≠ some .directory ∧
        t' = t.set loc (.file mode contents) := by
  have hwork : ¬ temporary <+: t.working := not_isPrefix_of_find?_eq_none hnone
  have halike : LeadAlike t (t.set temporary (.file mode contents)) :=
    leadAlike_set rfl fun old hold => by rw [hnone] at hold; cases hold
  have hfound : (t.set temporary (.file mode contents)).find? temporary =
      some (.file mode contents) := by rw [find?_set_eq, if_pos ⟨rfl, hwork⟩]
  have herase : (t.set temporary (.file mode contents)).erase temporary = t :=
    erase_set_of_find?_eq_none hnone _
  unfold rename
  rw [Except.bind_eq_ok_iff]
  constructor
  · rintro ⟨loc, hslot, h⟩
    rw [hfound, herase] at h
    split at h
    · cases h
    · next hslash =>
      split at h
      · cases h
      · next item heq hdirectory =>
        obtain rfl := Option.some.inj heq
        refine ⟨loc, halike.slot_eq_ok_iff.2 hslot, Bool.eq_false_iff.2 hslash, fun hd => ?_,
          (Except.ok.inj h).symm⟩
        exact hdirectory (halike.find?_eq_some hd rfl)
      · next heq _ => cases heq
  · rintro ⟨loc, hslot, hslash, hdirectory, rfl⟩
    refine ⟨loc, halike.slot_eq_ok_iff.1 hslot, ?_⟩
    rw [hfound, herase, hslash, if_neg Bool.false_ne_true]
    split
    · next hd => exact absurd (halike.symm.find?_eq_some hd rfl) hdirectory
    · next item heq _ =>
      obtain rfl := Option.some.inj heq
      rfl
    · next heq _ => cases heq

/-! ### Failing -/

/-- The permission bits of a new file at a path: those of the regular file that the path is seen
to lead to, or else the usual ones as far as the umask leaves them. -/
def modeAt (t : Tree) (p : Path) (interference : Interference) : Mode :=
  (t.fileMode? p interference).getD (t.newMode usualMode)

/-- The steps of the replacement of what a path names, in order. -/
def replacementSteps (t : Tree) (p : Path) (interference : Interference) : List Step :=
  .create :: furtherSteps (t.fileMode? p interference)

/-- A replacement fails first at a step, with a fault. -/
inductive ReplacementFails (T : Temporaries) (t : Tree) (p : Path) (contents : Bytes)
    (interference : Interference) : Step → Fault → Prop
  /-- A step is interfered with, and none before it. The first one is to make the temporary file. -/
  | interfered {before after : List Step} {step : Step}
    (hsteps : t.replacementSteps p interference = before ++ step :: after)
    (hbefore : ∀ earlier ∈ before, interference.fault earlier = none)
    (hmade : step = .create ∨ ∃ made, T.create t p.directory usualMode = .ok made) {fault : Fault}
    (h : interference.fault step = some fault) :
    ReplacementFails T t p contents interference step fault
  /-- The temporary file cannot be made. -/
  | noTemporary (hfree : interference.fault .create = none) {fault : Fault}
    (h : T.create t p.directory usualMode = .error fault) :
    ReplacementFails T t p contents interference .create fault
  /-- Nothing interferes, but the temporary file cannot be renamed. -/
  | noRename {t₁ : Tree} {temporary : Location}
    (hmade : T.create t p.directory usualMode = .ok (t₁, temporary))
    (hfree : ∀ step ∈ t.replacementSteps p interference, interference.fault step = none)
    {fault : Fault}
    (h : T.persist (t.set temporary (.file (t.modeAt p interference) contents)) temporary p =
      .error fault) : ReplacementFails T t p contents interference .rename fault

/-- A replacement for which a temporary file was made goes on with it. -/
theorem replace_of_made {t₁ : Tree} {temporary : Location}
    (hfree : interference.fault .create = none)
    (hmade : T.create t p.directory usualMode = .ok (t₁, temporary)) :
    t.replace T p contents interference =
      settle T temporary
        (perform interference (replacing T (t.fileMode? p interference) p contents temporary)
          t₁) := by
  have hcheck := Interference.check_eq_ok_iff.2 hfree
  unfold replace
  simp only [hcheck, hmade, Except.bind]

/-- What was done to the temporary file alone is undone when it is given up. -/
theorem settle_of_erase (hT : T.Lawful) {t₂ : Tree} {temporary : Location}
    (h : t₂.erase temporary = t) (fault : Fault) :
    settle T temporary (t₂, some fault) = (t, .error fault) := by
  rw [settle, hT.discard_eq, h]

/-- What is interfered with once there is a temporary file leaves no trace. -/
theorem replace_of_interfered (hT : T.Lawful) {t₁ : Tree} {temporary : Location}
    (hfree : interference.fault .create = none)
    (hmade : T.create t p.directory usualMode = .ok (t₁, temporary)) {before after : List Step}
    {step : Step} (hsteps : furtherSteps (t.fileMode? p interference) = before ++ step :: after)
    (hbefore : ∀ earlier ∈ before, interference.fault earlier = none) {fault : Fault}
    (h : interference.fault step = some fault) :
    t.replace T p contents interference = (t, .error fault) := by
  obtain ⟨-, hnone, rfl⟩ := hT.create_ok hmade
  have hactions := map_step_replacing T (t.fileMode? p interference) p contents temporary
  rw [hsteps] at hactions
  obtain ⟨first, back, hsplit, rfl, hback⟩ := List.map_eq_append_iff.1 hactions
  obtain ⟨action, rest, rfl, rfl, -⟩ := List.map_eq_cons_iff.1 hback
  -- what was carried out is part of what makes the temporary file ready
  have hready : ∀ a ∈ first, a.KeepsOthers temporary := by
    have hdrop := congrArg List.dropLast hsplit
    rw [replacing, List.dropLast_concat, List.dropLast_append_cons] at hdrop
    intro a ha
    exact keepsOthers_of_mem_preparing (hdrop ▸ List.mem_append_left _ ha)
  have hbroken : ∀ through t₂, (action.partly through t₂).erase temporary = t₂.erase temporary := by
    have hmem : action ∈ replacing T (t.fileMode? p interference) p contents temporary :=
      hsplit ▸ List.mem_append_right _ List.mem_cons_self
    rcases List.mem_append.1 hmem with hmem | hmem
    · exact (keepsOthers_of_mem_preparing hmem).partly
    · rw [List.mem_singleton.1 hmem]
      exact fun _ _ => rfl
  have hdone := perform_of_free hready (fun a ha => hbefore _ (List.mem_map_of_mem ha))
    (t.set temporary (.file (t.newMode usualMode) []))
  have herase := erase_perform interference hready
    (t.set temporary (.file (t.newMode usualMode) []))
  rw [replace_of_made hfree hmade, hsplit, perform_append]
  cases hfirst : perform interference first
      (t.set temporary (.file (t.newMode usualMode) [])) with
  | mk t₂ stopped =>
    rw [hfirst] at hdone herase
    obtain rfl : stopped = none := hdone
    simp only [perform, h]
    refine settle_of_erase hT ?_ fault
    rw [hbroken, herase, erase_set_of_find?_eq_none hnone]

/-- A replacement that fails leaves the tree as it was. -/
theorem replace_of_fails (hT : T.Lawful) {step : Step} {fault : Fault}
    (h : t.ReplacementFails T p contents interference step fault) :
    t.replace T p contents interference = (t, .error fault) := by
  cases h with
  | @interfered before after step hsteps hbefore hmade fault h =>
    cases before with
    | nil =>
      obtain ⟨rfl, -⟩ := List.cons.inj hsteps
      have hcheck := Interference.check_eq_error_iff.2 h
      unfold replace
      simp only [hcheck, Except.bind]
    | cons first before =>
      obtain ⟨rfl, hfurther⟩ := List.cons.inj hsteps
      obtain ⟨hfree, hbefore⟩ := List.forall_mem_cons.1 hbefore
      rcases hmade with rfl | ⟨⟨t₁, temporary⟩, hmade⟩
      · cases hfree.symm.trans h
      · exact replace_of_interfered hT hfree hmade hfurther hbefore h
  | noTemporary hfree h =>
    have hcheck := Interference.check_eq_ok_iff.2 hfree
    unfold replace
    simp only [hcheck, h, Except.bind]
  | @noRename t₁ temporary hmade hfree fault h =>
    obtain ⟨-, hnone, rfl⟩ := hT.create_ok hmade
    obtain ⟨hcreate, hfree⟩ := List.forall_mem_cons.1 hfree
    have hrename : interference.fault .rename = none := hfree _ (by simp [furtherSteps])
    have hready := perform_preparing (t.newMode usualMode) contents
      (not_isPrefix_of_find?_eq_none hnone) hfree
    rw [replace_of_made hcreate hmade, replacing, perform_append, hready]
    unfold modeAt at h
    simp only [perform, persisting, hrename, h]
    exact settle_of_erase hT (erase_set_of_find?_eq_none hnone _) fault

/-! ### Going well -/

/-- A file can be put at a path: a temporary file can be made, and the path names a place for a file
at which no directory stands. -/
structure Replaceable (T : Temporaries) (t : Tree) (p : Path) : Prop where
  temporary : ∃ made, T.create t p.directory usualMode = .ok made
  place : ∃ loc, t.slot p = .ok loc ∧ t.find? loc ≠ some .directory
  no_slash : p.endsInSlash = false

/-- A tree is another one with contents at the place that a path names, in a file with the mode
of the file that the path was seen to lead to. -/
structure Replaced (t : Tree) (p : Path) (contents : Bytes) (interference : Interference)
    (t' : Tree) (loc : Location) : Prop where
  slot : t.slot p = .ok loc
  working : t'.working = t.working
  umask : t'.umask = t.umask
  found : t'.find? loc = some (.file (t.modeAt p interference) contents)
  others : ∀ place, place ≠ loc → t'.find? place = t.find? place
  /-- The contents are what is read along the path. If a link gave way, the path must not have
  led through it. -/
  read : (∀ target, t.find? loc = some (.link target) → t'.slot p = .ok loc) →
    t'.read p = .ok contents

theorem replaced_set {loc : Location} (hslot : t.slot p = .ok loc) (hslash : p.endsInSlash = false)
    (hdirectory : t.find? loc ≠ some .directory) :
    Replaced t p contents interference (t.set loc (.file (t.modeAt p interference) contents))
      loc := by
  have hwork : ¬ loc <+: t.working := fun hprefix => hdirectory (t.find?_eq_directory hprefix)
  have hfound : (t.set loc (.file (t.modeAt p interference) contents)).find? loc =
      some (.file (t.modeAt p interference) contents) := by rw [find?_set_eq, if_pos ⟨rfl, hwork⟩]
  refine ⟨hslot, rfl, rfl, hfound, fun place hne => ?_, fun hlink => ?_⟩
  · rw [find?_set_eq, if_neg fun h => hne h.1]
  · refine read_of_slot ?_ hslash hfound
    by_cases hl : ∃ target, t.find? loc = some (.link target)
    · obtain ⟨target, htarget⟩ := hl
      exact hlink target htarget
    · refine (leadAlike_set rfl fun old hold => ?_).slot_eq_ok_iff.1 hslot
      cases old with
      | file mode contents => rfl
      | directory => exact absurd hold hdirectory
      | link target => exact absurd ⟨target, hold⟩ hl

/-- A replacement that does not fail puts a file at the place that the path names. -/
theorem exists_replace_eq_of_not_fails (hT : T.Lawful)
    (h : ∀ step fault, ¬ t.ReplacementFails T p contents interference step fault) :
    t.Replaceable T p ∧
      (∀ step ∈ t.replacementSteps p interference, interference.fault step = none) ∧
      ∃ loc, t.slot p = .ok loc ∧ t.find? loc ≠ some .directory ∧
        t.replace T p contents interference =
          (t.set loc (.file (t.modeAt p interference) contents), .ok ()) := by
  have hcreate : interference.fault .create = none := by
    cases hfault : interference.fault .create with
    | none => rfl
    | some fault =>
      exact absurd (.interfered rfl (List.forall_mem_nil _) (.inl rfl) hfault) (h .create fault)
  cases hmade : T.create t p.directory usualMode with
  | error fault => exact absurd (.noTemporary hcreate hmade) (h .create fault)
  | ok made =>
    obtain ⟨t₁, temporary⟩ := made
    have hfree : ∀ step ∈ t.replacementSteps p interference, interference.fault step = none := by
      by_contra hsome
      -- of the steps that are interfered with the first one is looked at
      have hfind : (t.replacementSteps p interference).find?
          (fun step => (interference.fault step).isSome) ≠ none := by
        intro hnone
        refine hsome fun step hstep => ?_
        simpa using List.find?_eq_none.1 hnone step hstep
      obtain ⟨step, hstep⟩ := Option.ne_none_iff_exists'.1 hfind
      obtain ⟨hinterfered, before, after, hsteps, hbefore⟩ :=
        List.find?_eq_some_iff_append.1 hstep
      obtain ⟨fault, hfault⟩ := Option.isSome_iff_exists.1 hinterfered
      refine h step fault (.interfered hsteps (fun earlier hearlier => ?_) (.inr ⟨_, hmade⟩) hfault)
      simpa using hbefore earlier hearlier
    obtain ⟨-, hnone, rfl⟩ := hT.create_ok hmade
    obtain ⟨-, hfurther⟩ := List.forall_mem_cons.1 hfree
    have hrename : interference.fault .rename = none := hfurther _ (by simp [furtherSteps])
    cases hrun : T.persist (t.set temporary (.file (t.modeAt p interference) contents))
        temporary p with
    | error fault => exact absurd (.noRename hmade hfree hrun) (h .rename fault)
    | ok t' =>
      have hrenamed := hrun
      rw [hT.persist_eq] at hrenamed
      obtain ⟨loc, hslot, hslash, hdirectory, rfl⟩ := (rename_set_eq_ok_iff hnone).1 hrenamed
      have hready := perform_preparing (t.newMode usualMode) contents
        (not_isPrefix_of_find?_eq_none hnone) hfurther
      refine ⟨⟨⟨_, hmade⟩, ⟨loc, hslot, hdirectory⟩, hslash⟩, hfree, loc, hslot, hdirectory, ?_⟩
      rw [replace_of_made hcreate hmade, replacing, perform_append, hready]
      unfold modeAt at hrun
      simp only [perform, persisting, hrename, hrun]
      rfl

/-- A replacement that does not fail puts the contents where the path says, and does nothing
else. -/
theorem exists_replaced_of_not_fails (hT : T.Lawful)
    (h : ∀ step fault, ¬ t.ReplacementFails T p contents interference step fault) :
    t.Replaceable T p ∧
      (∀ step ∈ t.replacementSteps p interference, interference.fault step = none) ∧
      ∃ t' loc, t.replace T p contents interference = (t', .ok ()) ∧
        Replaced t p contents interference t' loc := by
  obtain ⟨hreplaceable, hfree, loc, hslot, hdirectory, hreplace⟩ :=
    exists_replace_eq_of_not_fails hT h
  exact ⟨hreplaceable, hfree, _, loc, hreplace,
    replaced_set hslot hreplaceable.no_slash hdirectory⟩

theorem not_replaceable_or_of_fails (hT : T.Lawful) {step : Step} {fault : Fault}
    (h : t.ReplacementFails T p contents interference step fault) :
    ¬ t.Replaceable T p ∨
      ∃ step ∈ t.replacementSteps p interference, interference.fault step ≠ none := by
  cases h with
  | interfered hsteps _ _ h => exact .inr ⟨step, by simp [hsteps], by simp [h]⟩
  | noTemporary _ h =>
    refine .inl fun hr => ?_
    obtain ⟨made, hmade⟩ := hr.temporary
    cases h.symm.trans hmade
  | noRename hmade _ h =>
    refine .inl fun hr => ?_
    obtain ⟨-, hnone, -⟩ := hT.create_ok hmade
    obtain ⟨loc, hslot, hdirectory⟩ := hr.place
    rw [hT.persist_eq,
      (rename_set_eq_ok_iff hnone).2 ⟨loc, hslot, hr.no_slash, hdirectory, rfl⟩] at h
    cases h

/-- A replacement fails exactly if no file can be put at the path or a step is interfered
with. -/
theorem exists_replacementFails_iff (hT : T.Lawful) :
    (∃ step fault, t.ReplacementFails T p contents interference step fault) ↔
      ¬ t.Replaceable T p ∨
        ∃ step ∈ t.replacementSteps p interference, interference.fault step ≠ none := by
  constructor
  · rintro ⟨step, fault, h⟩
    exact not_replaceable_or_of_fails hT h
  · intro h
    by_contra hnot
    obtain ⟨hreplaceable, hfree, -⟩ := exists_replaced_of_not_fails hT fun step fault hfails =>
      hnot ⟨step, fault, hfails⟩
    rcases h with h | ⟨step, hstep, hne⟩
    · exact h hreplaceable
    · exact hne (hfree step hstep)

/-- Where a file can be put and nothing interferes, no replacement fails. -/
theorem Replaceable.not_replacementFails (hT : T.Lawful) (h : t.Replaceable T p)
    (contents : Bytes) (step : Step) (fault : Fault) :
    ¬ t.ReplacementFails T p contents {} step fault := by
  intro hfails
  rcases not_replaceable_or_of_fails hT hfails with hnot | ⟨other, -, hother⟩
  · exact hnot h
  · exact hother rfl

/-- A replacement goes well exactly if a file can be put at the path and no step is interfered
with, and it then puts the file there. -/
theorem replace_eq_ok_iff (hT : T.Lawful) :
    t.replace T p contents interference = (t', .ok ()) ↔
      t.Replaceable T p ∧
        (∀ step ∈ t.replacementSteps p interference, interference.fault step = none) ∧
        ∃ loc, t.slot p = .ok loc ∧
          t' = t.set loc (.file (t.modeAt p interference) contents) := by
  by_cases hfails : ∃ step fault, t.ReplacementFails T p contents interference step fault
  · refine iff_of_false (fun h => ?_) (fun ⟨hreplaceable, hfree, _⟩ => ?_)
    · obtain ⟨step, fault, hfault⟩ := hfails
      rw [replace_of_fails hT hfault] at h
      cases (Prod.mk.inj h).2
    · rcases (exists_replacementFails_iff hT).1 hfails with hnot | ⟨step, hstep, hne⟩
      · exact hnot hreplaceable
      · exact hne (hfree step hstep)
  · obtain ⟨hreplaceable, hfree, loc, hslot, -, hreplace⟩ :=
      exists_replace_eq_of_not_fails hT fun step fault h => hfails ⟨step, fault, h⟩
    rw [hreplace]
    constructor
    · intro h
      exact ⟨hreplaceable, hfree, loc, hslot, (Prod.mk.inj h).1.symm⟩
    · rintro ⟨-, -, loc', hslot', rfl⟩
      obtain rfl : loc = loc' := Except.ok.inj (hslot.symm.trans hslot')
      rfl

end NodeHeader.Files.Tree
