/-
  Trees of files.

  A tree holds files with their permission bits and contents, directories, and
  symbolic links. An item is found by its location, the names that lead to it from
  the root; the items are kept in the order of their locations, in which a
  directory stands directly before what is in it, and no location occurs twice.
  One location is that of the working directory. It and everything above it are
  directories, whatever else is changed. What a new file may be used for depends on
  the umask of the process.

  What is found where after an item was put somewhere is said by `Tree.find?_set`.
-/
import NodeHeader.Files.Path

namespace NodeHeader.Files

open NodeHeader.Text (Bytes)

/-- Permission bits for the owner, the group and others. -/
abbrev Mode := BitVec 9

/-- What can stand at a location. -/
inductive Item where
  | file (mode : Mode) (contents : Bytes)
  /-- A directory; what is in it stands at the locations below. -/
  | directory
  | link (target : Path)
deriving DecidableEq, Repr

/-- The names that lead to an item from the root. -/
abbrev Location := List Name

/-- A tree of files, as a process with a working directory and a umask has it. -/
structure Tree where
  /-- The location of the working directory. -/
  working : Location
  /-- The permission bits that a new file does not get. -/
  umask : Mode
  /-- The items with their locations, in the order of the locations. -/
  items : List (Location × Item)
  sorted : items.Pairwise (·.1 < ·.1)
deriving DecidableEq

namespace Tree

/-! ### Items in order -/

/-- The items with one more, in place of the one that was at its location. -/
def insertItem (loc : Location) (item : Item) : List (Location × Item) → List (Location × Item)
  | [] => [(loc, item)]
  | x :: rest =>
    if loc < x.1 then (loc, item) :: x :: rest
    else if loc = x.1 then (loc, item) :: rest
    else x :: insertItem loc item rest

theorem mem_insertItem {loc : Location} {item : Item} {xs : List (Location × Item)}
    {x : Location × Item} (h : x ∈ insertItem loc item xs) : x = (loc, item) ∨ x ∈ xs := by
  induction xs with
  | nil => simpa [insertItem] using h
  | cons y rest ih =>
    rw [insertItem] at h
    split at h
    · simpa using h
    · split at h
      · grind
      · grind

theorem pairwise_insertItem {loc : Location} {item : Item} {xs : List (Location × Item)}
    (h : xs.Pairwise (·.1 < ·.1)) : (insertItem loc item xs).Pairwise (·.1 < ·.1) := by
  induction xs with
  | nil => simp [insertItem]
  | cons y rest ih =>
    rw [List.pairwise_cons] at h
    rw [insertItem]
    split
    next hlt =>
      refine List.pairwise_cons.2 ⟨fun x hx => ?_, List.pairwise_cons.2 h⟩
      rcases List.mem_cons.1 hx with rfl | hx
      · exact hlt
      · exact List.lt_trans hlt (h.1 x hx)
    next hge =>
      split
      next heq => exact List.pairwise_cons.2 ⟨fun x hx => heq ▸ h.1 x hx, h.2⟩
      next hne =>
        have hlt : y.1 < loc := by
          rcases Std.Trichotomous.rel_or_eq_or_rel_swap (r := fun a b : Location => a < b)
            (a := loc) (b := y.1) with h | h | h
          · exact absurd h hge
          · exact absurd h hne
          · exact h
        refine List.pairwise_cons.2 ⟨fun x hx => ?_, ih h.2⟩
        rcases mem_insertItem hx with rfl | hx
        · exact hlt
        · exact h.1 x hx

/-! ### Operations -/

/-- The tree that has an empty working directory at a location, and nothing else. -/
def empty (working : Location) (umask : Mode) : Tree :=
  ⟨working, umask, [], .nil⟩

/-- The item at a location. The working directory and all above it are directories. -/
def find? (t : Tree) (loc : Location) : Option Item :=
  if loc.isPrefixOf t.working then some .directory else t.items.lookup loc

/-- The tree with an item at a location, in place of what was there. -/
def set (t : Tree) (loc : Location) (item : Item) : Tree :=
  ⟨t.working, t.umask, insertItem loc item t.items, pairwise_insertItem t.sorted⟩

/-- The tree with nothing at a location. -/
def erase (t : Tree) (loc : Location) : Tree :=
  ⟨t.working, t.umask, t.items.filter (·.1 ≠ loc), t.sorted.filter _⟩

/-! ### Laws -/

theorem lookup_cons_eq (loc : Location) (item : Item) (rest : List (Location × Item))
    (place : Location) :
    List.lookup place ((loc, item) :: rest) =
      if place = loc then some item else rest.lookup place := by
  rw [List.lookup_cons]
  by_cases h : place = loc
  · rw [beq_iff_eq.2 h, if_pos h]
  · rw [beq_eq_false_iff_ne.2 h, if_neg h]

theorem lookup_insertItem {loc : Location} {item : Item} {xs : List (Location × Item)}
    (place : Location) :
    (insertItem loc item xs).lookup place =
      if place = loc then some item else xs.lookup place := by
  induction xs with
  | nil => rw [insertItem, lookup_cons_eq]
  | cons y rest ih =>
    obtain ⟨k, b⟩ := y
    rw [insertItem]
    split
    · rw [lookup_cons_eq]
    · split
      · simp only [lookup_cons_eq]; grind
      · simp only [lookup_cons_eq, ih]; grind

/-- The working directory and all above it are found as directories. -/
theorem find?_eq_directory (t : Tree) {place : Location} (h : place <+: t.working) :
    t.find? place = some .directory :=
  if_pos (List.isPrefixOf_iff_prefix.2 h)

/-- Elsewhere it is the items that are found. -/
theorem find?_eq_lookup (t : Tree) {place : Location} (h : ¬ place <+: t.working) :
    t.find? place = t.items.lookup place :=
  if_neg (mt List.isPrefixOf_iff_prefix.1 h)

/-- After a change at a location, the new item is there and all else is as before. -/
theorem find?_set (t : Tree) (loc : Location) (item : Item) {place : Location}
    (h : ¬ place <+: t.working) :
    (t.set loc item).find? place = if place = loc then some item else t.find? place := by
  rw [find?_eq_lookup t h, find?_eq_lookup (t.set loc item) h, set, lookup_insertItem]

end Tree

end NodeHeader.Files
