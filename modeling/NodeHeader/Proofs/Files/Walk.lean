/-
  Where walks lead.

  `Tree.Leads` says by rules where names lead from a directory, following a number of links at
  most: one rule for each thing that a name can be met as. A walk ends where the rules say, and
  fails if they say nothing (`Tree.walk_eq_ok_iff`), so facts about walks are shown rule by rule.

  Only directories and links matter to where a walk leads. Two trees that have the same ones
  lead alike (`Tree.LeadAlike`), whatever files they have besides; one such pair is a tree before
  and after a file is put where there was a file before, or nothing (`Tree.leadAlike_set`).

  A path that names a place for a file leads to the file that is put there
  (`Tree.locate_of_slot`): the walk to a directory and one name further is the walk along the
  path. That file may have taken the place of a link through which the path led. The path then
  names no place any more, but never another one (`Tree.slot_of_slot_set_file`).
-/
import NodeHeader.Files.Walk
import NodeHeader.Proofs.Files.Tree
import NodeHeader.Proofs.Traced

namespace NodeHeader.Files.Tree

open NodeHeader.Text (Bytes)

variable {t t' : Tree}

/-! ### The rules of walks -/

/-- Whether a walk goes on from an item: from a directory or a link, but not from a file. -/
def goesOn : Item → Bool
  | .directory | .link _ => true
  | .file .. => false

/-- A name that is looked up: it is neither that of the directory itself nor that of its parent,
and not too long. -/
structure IsLookedUp (name : Name) : Prop where
  ne_self : name ≠ selfName
  ne_parent : name ≠ parentName
  length_le : name.length ≤ Name.maxLength

/-- Where names lead from a directory, if a number of links may be followed. -/
inductive Leads (t : Tree) : Nat → Location → List Name → Location → Prop
  | here {links : Nat} {place : Location} : Leads t links place [] place
  | self {links : Nat} {place loc : Location} {rest : List Name}
    (h : Leads t links place rest loc) : Leads t links place (selfName :: rest) loc
  | parent {links : Nat} {place loc : Location} {rest : List Name}
    (h : Leads t links place.dropLast rest loc) : Leads t links place (parentName :: rest) loc
  | directory {links : Nat} {place loc : Location} {name : Name} {rest : List Name}
    (hname : IsLookedUp name) (hfind : t.find? (place ++ [name]) = some .directory)
    (h : Leads t links (place ++ [name]) rest loc) : Leads t links place (name :: rest) loc
  | link {links : Nat} {place loc : Location} {name : Name} {rest : List Name} {target : Path}
    (hname : IsLookedUp name) (hfind : t.find? (place ++ [name]) = some (.link target))
    (htarget : target.bytes.isEmpty = false)
    (h : Leads t links (if target.isAbsolute then [] else place) (target.steps ++ rest) loc) :
    Leads t (links + 1) place (name :: rest) loc
  /-- The last name may be that of a file, or of nothing yet. -/
  | last {links : Nat} {place : Location} {name : Name} (hname : IsLookedUp name)
    (hfind : ∀ item, t.find? (place ++ [name]) = some item → goesOn item = false) :
    Leads t links place [name] (place ++ [name])

theorem walk_nil (links : Nat) (place : Location) : t.walk links place [] = .ok place := by
  cases links <;> rfl

theorem walk_self (links : Nat) (place : Location) (rest : List Name) :
    t.walk links place (selfName :: rest) = t.walk links place rest := by
  cases links <;> rfl

theorem walk_parent (links : Nat) (place : Location) (rest : List Name) :
    t.walk links place (parentName :: rest) = t.walk links place.dropLast rest := by
  cases links <;> rfl

section Lookup

variable {place : Location} {name : Name} (hname : IsLookedUp name)
include hname

theorem walk_directory (hfind : t.find? (place ++ [name]) = some .directory) (links : Nat)
    (rest : List Name) :
    t.walk links place (name :: rest) = t.walk links (place ++ [name]) rest := by
  have hlength := Nat.not_lt.2 hname.length_le
  cases links <;> simp [walk, walkWith, hname.ne_self, hname.ne_parent, hlength, hfind]

theorem walk_link {target : Path} (hfind : t.find? (place ++ [name]) = some (.link target))
    (htarget : target.bytes.isEmpty = false) (links : Nat) (rest : List Name) :
    t.walk (links + 1) place (name :: rest) =
      t.walk links (if target.isAbsolute then [] else place) (target.steps ++ rest) := by
  have hlength := Nat.not_lt.2 hname.length_le
  simp [walk, walkWith, hname.ne_self, hname.ne_parent, hlength, hfind, htarget]

theorem walk_last (hfind : ∀ item, t.find? (place ++ [name]) = some item → goesOn item = false)
    (links : Nat) : t.walk links place [name] = .ok (place ++ [name]) := by
  have hstep (jump : Location → List Name → Except Fault Location) :
      t.walkWith jump place [name] = .ok (place ++ [name]) := by
    have hlength := Nat.not_lt.2 hname.length_le
    rw [walkWith, if_neg hname.ne_self, if_neg hname.ne_parent, if_neg hlength]
    cases hitem : t.find? (place ++ [name]) with
    | none => rfl
    | some item =>
      cases item with
      | file mode contents => rfl
      | directory => cases hfind _ hitem
      | link target => cases hfind _ hitem
  cases links <;> exact hstep _

end Lookup

theorem leads_of_walkWith {links : Nat} {jump : Location → List Name → Except Fault Location}
    (hjump : ∀ place names loc, jump place names = .ok loc →
      ∃ fewer, links = fewer + 1 ∧ Leads t fewer place names loc)
    {place loc : Location} {names : List Name} (h : t.walkWith jump place names = .ok loc) :
    Leads t links place names loc := by
  induction names generalizing place with
  | nil =>
    obtain rfl : place = loc := Except.ok.inj h
    exact .here
  | cons name rest ih =>
    rw [walkWith] at h
    split at h
    · next hself =>
      subst hself
      exact .self (ih h)
    split at h
    · next hparent =>
      subst hparent
      exact .parent (ih h)
    split at h
    · cases h
    · next hself hparent hlength =>
      have hname : IsLookedUp name := ⟨hself, hparent, Nat.not_lt.1 hlength⟩
      -- one case for each kind of item, and one for none
      cases hitem : t.find? (place ++ [name]) with
      | none =>
        rw [hitem] at h
        dsimp only at h
        split at h
        · next hrest =>
          obtain rfl := List.isEmpty_iff.1 hrest
          obtain rfl := Except.ok.inj h
          exact .last hname fun item hsome => by rw [hitem] at hsome; cases hsome
        · cases h
      | some item =>
        cases item with
        | directory =>
          rw [hitem] at h
          exact .directory hname hitem (ih h)
        | link target =>
          rw [hitem] at h
          dsimp only at h
          split at h
          · cases h
          · next htarget =>
            obtain ⟨fewer, rfl, hleads⟩ := hjump _ _ _ h
            exact .link hname hitem (Bool.eq_false_iff.2 htarget) hleads
        | file mode contents =>
          rw [hitem] at h
          dsimp only at h
          split at h
          · next hrest =>
            obtain rfl := List.isEmpty_iff.1 hrest
            obtain rfl := Except.ok.inj h
            exact .last hname fun item hsome => by
              rw [hitem] at hsome
              obtain rfl := Option.some.inj hsome
              rfl
          · cases h

/-- A walk ends where the rules say. -/
theorem walk_eq_ok_iff {links : Nat} {place loc : Location} {names : List Name} :
    t.walk links place names = .ok loc ↔ Leads t links place names loc := by
  constructor
  · intro h
    induction links generalizing place names loc with
    | zero => exact leads_of_walkWith (fun _ _ _ hjump => by cases hjump) h
    | succ links ih =>
      exact leads_of_walkWith (fun _ _ _ hjump => ⟨links, rfl, ih hjump⟩) h
  · intro h
    induction h with
    | here => exact walk_nil _ _
    | self _ ih => rwa [walk_self]
    | parent _ ih => rwa [walk_parent]
    | directory hname hfind _ ih => rwa [walk_directory hname hfind]
    | link hname hfind htarget _ ih => rwa [walk_link hname hfind htarget]
    | last hname hfind => exact walk_last hname hfind _

/-! ### Trees that lead alike -/

/-- The trees have the same directories and links, and the same working directory. -/
structure LeadAlike (t t' : Tree) : Prop where
  working : t.working = t'.working
  ways : ∀ place, (t.find? place).filter goesOn = (t'.find? place).filter goesOn

namespace LeadAlike

theorem symm (h : LeadAlike t t') : LeadAlike t' t :=
  ⟨h.working.symm, fun place => (h.ways place).symm⟩

theorem find?_eq_some (h : LeadAlike t t') {place : Location} {item : Item}
    (hfind : t.find? place = some item) (hitem : goesOn item = true) :
    t'.find? place = some item := by
  have hway := h.ways place
  rw [hfind, Option.filter_some_pos hitem] at hway
  exact Option.eq_some_of_filter_eq_some hway.symm

theorem leads (h : LeadAlike t t') {links : Nat} {place loc : Location} {names : List Name}
    (hleads : Leads t links place names loc) : Leads t' links place names loc := by
  induction hleads with
  | here => exact .here
  | self _ ih => exact .self ih
  | parent _ ih => exact .parent ih
  | directory hname hfind _ ih => exact .directory hname (h.find?_eq_some hfind rfl) ih
  | link hname hfind htarget _ ih => exact .link hname (h.find?_eq_some hfind rfl) htarget ih
  | last hname hfind =>
    refine .last hname fun item hitem => ?_
    cases hgo : goesOn item with
    | false => rfl
    | true =>
      have hback := hfind item (h.symm.find?_eq_some hitem hgo)
      rwa [hgo] at hback

theorem leads_iff (h : LeadAlike t t') {links : Nat} {place loc : Location} {names : List Name} :
    Leads t links place names loc ↔ Leads t' links place names loc :=
  ⟨h.leads, h.symm.leads⟩

end LeadAlike

/-! ### Places for files -/

/-- A path names a place if its last name is looked up and the names before it lead to a
directory, which holds the place. -/
theorem slot_eq_ok_iff {p : Path} {loc : Location} :
    t.slot p = .ok loc ↔ p.check = .ok () ∧ ∃ before name directory, p.names = before ++ [name] ∧
      IsLookedUp name ∧ Leads t linkLimit (t.start p) (before ++ [selfName]) directory ∧
      loc = directory ++ [name] := by
  unfold slot
  rw [Except.bind_eq_ok_iff]
  constructor
  · rintro ⟨⟨⟩, hcheck, h⟩
    split at h
    · cases h
    · next name hlast =>
      obtain ⟨before, hnames⟩ := List.getLast?_eq_some_iff.1 hlast
      obtain ⟨directory, hdirectory, h⟩ := Except.bind_eq_ok_iff.1 h
      split at h
      · cases h
      split at h
      · cases h
      · next hself hlength =>
        rw [hnames, List.dropLast_concat] at hdirectory
        exact ⟨hcheck, before, name, directory, hnames,
          ⟨fun h => hself (.inl h), fun h => hself (.inr h), Nat.not_lt.1 hlength⟩,
          walk_eq_ok_iff.1 hdirectory, (Except.ok.inj h).symm⟩
  · rintro ⟨hcheck, before, name, directory, hnames, hname, hleads, rfl⟩
    have hdirectory : t.locateDirectory (t.start p) before = .ok directory :=
      walk_eq_ok_iff.2 hleads
    refine ⟨(), hcheck, ?_⟩
    simp only [hnames, List.getLast?_concat, List.dropLast_concat]
    rw [hdirectory]
    show (if name = selfName ∨ name = parentName then _ else _) = _
    rw [if_neg (not_or.2 ⟨hname.ne_self, hname.ne_parent⟩),
      if_neg (Nat.not_lt.2 hname.length_le)]
    rfl

theorem LeadAlike.slot_eq_ok_iff (h : LeadAlike t t') {p : Path} {loc : Location} :
    t.slot p = .ok loc ↔ t'.slot p = .ok loc := by
  have hstart : t.start p = t'.start p := by rw [start, start, h.working]
  simp only [Tree.slot_eq_ok_iff, hstart, h.leads_iff]

/-- A file where there was a file before, or nothing, is in nobody's way. -/
theorem leadAlike_set {loc : Location} {item : Item} (hitem : goesOn item = false)
    (hfind : ∀ old, t.find? loc = some old → goesOn old = false) :
    LeadAlike t (t.set loc item) where
  working := rfl
  ways place := by
    rw [find?_set_eq]
    split
    · next hplace =>
      have hold : (t.find? loc).filter goesOn = none :=
        Option.filter_eq_none_iff.2 fun old hsome => by simp [hfind old hsome]
      rw [hplace.1, hold, Option.filter_some_neg (by simp [hitem])]
    · rfl

/-- Where names lead to a directory, one name more leads to what is in it. -/
theorem Leads.concat {links : Nat} {place directory : Location} {before : List Name} {name : Name}
    (h : Leads t links place (before ++ [selfName]) directory) (hname : IsLookedUp name)
    (hfind : ∀ item, t.find? (directory ++ [name]) = some item → goesOn item = false) :
    Leads t links place (before ++ [name]) (directory ++ [name]) := by
  generalize hnames : before ++ [selfName] = names at h
  induction h generalizing before with
  | here => cases before <;> cases hnames
  | self h ih =>
    cases before with
    | nil =>
      obtain ⟨-, rfl⟩ := List.cons.inj hnames
      cases h
      exact .last hname hfind
    | cons first rest =>
      obtain ⟨rfl, hrest⟩ := List.cons.inj hnames
      exact .self (ih hfind hrest)
  | parent h ih =>
    cases before with
    | nil => cases (List.cons.inj hnames).1
    | cons first rest =>
      obtain ⟨rfl, hrest⟩ := List.cons.inj hnames
      exact .parent (ih hfind hrest)
  | directory hfirst hdirectory h ih =>
    cases before with
    | nil => exact absurd (List.cons.inj hnames).1.symm hfirst.ne_self
    | cons first rest =>
      obtain ⟨rfl, hrest⟩ := List.cons.inj hnames
      exact .directory hfirst hdirectory (ih hfind hrest)
  | @link _ _ _ _ _ target hfirst hlink htarget h ih =>
    cases before with
    | nil => exact absurd (List.cons.inj hnames).1.symm hfirst.ne_self
    | cons first rest =>
      obtain ⟨rfl, rfl⟩ := List.cons.inj hnames
      have hsplit : (target.steps ++ rest) ++ [selfName] = target.steps ++ (rest ++ [selfName]) :=
        List.append_assoc ..
      have hrest := ih hfind hsplit
      rw [List.append_assoc] at hrest
      exact .link hfirst hlink htarget hrest
  | last hfirst _ =>
    cases before with
    | nil => exact absurd (List.cons.inj hnames).1.symm hfirst.ne_self
    | cons first rest => cases rest <;> cases (List.cons.inj hnames).2

/-- A path leads to the place that it names if a file is there. -/
theorem locate_of_slot {p : Path} {loc : Location} {mode : Mode} {contents : Bytes}
    (hslot : t.slot p = .ok loc) (hslash : p.endsInSlash = false)
    (hfile : t.find? loc = some (.file mode contents)) : t.locate p = .ok loc := by
  obtain ⟨hcheck, before, name, directory, hnames, hname, hleads, rfl⟩ := slot_eq_ok_iff.1 hslot
  have hsteps : p.steps = before ++ [name] := by
    rw [Path.steps, hslash, hnames]
    exact List.append_nil _
  have hleads' : Leads t linkLimit (t.start p) (before ++ [name]) (directory ++ [name]) :=
    hleads.concat hname fun item hitem => by
      rw [hfile] at hitem
      obtain rfl := Option.some.inj hitem
      rfl
  rw [locate, hcheck, hsteps]
  exact walk_eq_ok_iff.2 hleads'

/-- What is read along a path is the file at the place that the path names. -/
theorem read_of_slot {p : Path} {loc : Location} {mode : Mode} {contents : Bytes}
    (hslot : t.slot p = .ok loc) (hslash : p.endsInSlash = false)
    (hfile : t.find? loc = some (.file mode contents)) : t.read p = .ok contents :=
  Except.bind_eq_ok_iff.2 ⟨(), rfl, Except.bind_eq_ok_iff.2
    ⟨loc, locate_of_slot hslot hslash hfile, by rw [hfile]; rfl⟩⟩

/-! ### Files on the way -/

theorem find?_of_find?_set_file {loc place : Location} {mode : Mode} {contents : Bytes}
    {item : Item} (hitem : goesOn item = true)
    (h : (t.set loc (.file mode contents)).find? place = some item) :
    t.find? place = some item := by
  rw [find?_set_eq] at h
  split at h
  · obtain rfl := Option.some.inj h
    cases hitem
  · exact h

/-- Names that lead to a directory after a file was put somewhere have led there before, since
no walk goes on from a file. -/
theorem Leads.of_set_file {loc place directory : Location} {mode : Mode} {contents : Bytes}
    {links : Nat} {before : List Name}
    (h : Leads (t.set loc (.file mode contents)) links place (before ++ [selfName]) directory) :
    Leads t links place (before ++ [selfName]) directory := by
  generalize hnames : before ++ [selfName] = names at h ⊢
  induction h generalizing before with
  | here => exact .here
  | self h ih =>
    cases before with
    | nil =>
      obtain ⟨-, rfl⟩ := List.cons.inj hnames
      cases h
      exact .self .here
    | cons first rest => exact .self (ih (List.cons.inj hnames).2)
  | parent h ih =>
    cases before with
    | nil => cases (List.cons.inj hnames).1
    | cons first rest => exact .parent (ih (List.cons.inj hnames).2)
  | directory hname hfind h ih =>
    cases before with
    | nil => exact absurd (List.cons.inj hnames).1.symm hname.ne_self
    | cons first rest =>
      exact .directory hname (find?_of_find?_set_file rfl hfind) (ih (List.cons.inj hnames).2)
  | @link _ _ _ _ _ target hname hfind htarget h ih =>
    cases before with
    | nil => exact absurd (List.cons.inj hnames).1.symm hname.ne_self
    | cons first rest =>
      obtain ⟨-, rfl⟩ := List.cons.inj hnames
      have hsplit : (target.steps ++ rest) ++ [selfName] = target.steps ++ (rest ++ [selfName]) :=
        List.append_assoc ..
      exact .link hname (find?_of_find?_set_file rfl hfind) htarget (ih hsplit)
  | last hname _ =>
    cases before with
    | nil => exact absurd (List.cons.inj hnames).1.symm hname.ne_self
    | cons first rest => cases rest <;> cases (List.cons.inj hnames).2

/-- A place that a path names after a file was put somewhere is the one that it named before. -/
theorem slot_of_slot_set_file {p : Path} {loc place : Location} {mode : Mode} {contents : Bytes}
    (h : (t.set loc (.file mode contents)).slot p = .ok place) : t.slot p = .ok place := by
  obtain ⟨hcheck, before, name, directory, hnames, hname, hleads, rfl⟩ := slot_eq_ok_iff.1 h
  exact slot_eq_ok_iff.2 ⟨hcheck, before, name, directory, hnames, hname, hleads.of_set_file, rfl⟩

end NodeHeader.Files.Tree
