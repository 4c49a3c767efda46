/-
  Changes of a tree and how they undo each other.

  An item that is put at a location gives way to the next one that is put there
  (`Tree.set_set`), and nothing of it is left when the location is erased (`Tree.erase_set`). If
  nothing stood there before, the tree is then as it was (`Tree.erase_set_of_find?_eq_none`).
-/
import NodeHeader.Files.Tree

namespace NodeHeader.Files.Tree

/-! ### Changes at one location -/

theorem insertItem_insertItem (loc : Location) (item item' : Item) (xs : List (Location × Item)) :
    insertItem loc item' (insertItem loc item xs) = insertItem loc item' xs := by
  induction xs with
  | nil => simp [insertItem]
  | cons y rest ih => grind [insertItem]

theorem filter_insertItem (loc : Location) (item : Item) (xs : List (Location × Item)) :
    (insertItem loc item xs).filter (·.1 ≠ loc) = xs.filter (·.1 ≠ loc) := by
  induction xs with
  | nil => simp [insertItem]
  | cons y rest ih =>
    rw [insertItem]
    split
    · rw [List.filter_cons_of_neg (by simp)]
    split
    · next heq => rw [List.filter_cons_of_neg (by simp), List.filter_cons_of_neg (by simp [heq])]
    · rw [List.filter_cons, List.filter_cons, ih]

/-- The later of two items at one location is all that counts. -/
@[simp] theorem set_set (t : Tree) (loc : Location) (item item' : Item) :
    (t.set loc item).set loc item' = t.set loc item' := by
  simp [set, insertItem_insertItem]

/-- Nothing is left of an item that is erased. -/
@[simp] theorem erase_set (t : Tree) (loc : Location) (item : Item) :
    (t.set loc item).erase loc = t.erase loc := by
  simp only [set, erase, filter_insertItem]

/-- Where nothing is found, there is no directory above the working directory. -/
theorem not_isPrefix_of_find?_eq_none {t : Tree} {loc : Location} (h : t.find? loc = none) :
    ¬ loc <+: t.working := fun hprefix => by
  rw [t.find?_eq_directory hprefix] at h
  cases h

theorem erase_of_find?_eq_none {t : Tree} {loc : Location} (h : t.find? loc = none) :
    t.erase loc = t := by
  rw [find?_eq_lookup t (not_isPrefix_of_find?_eq_none h), List.lookup_eq_none_iff] at h
  have hitems : t.items.filter (·.1 ≠ loc) = t.items :=
    List.filter_eq_self.2 fun x hx => decide_eq_true (bne_iff_ne.1 (h x hx)).symm
  simp only [erase, hitems]

/-- An item where nothing was leaves no trace when it is erased. -/
theorem erase_set_of_find?_eq_none {t : Tree} {loc : Location} (h : t.find? loc = none)
    (item : Item) : (t.set loc item).erase loc = t := by
  rw [erase_set, erase_of_find?_eq_none h]

/-- What is found in a tree with one more item: above the working directory it does not show. -/
theorem find?_set_eq (t : Tree) (loc : Location) (item : Item) (place : Location) :
    (t.set loc item).find? place =
      if place = loc ∧ ¬ loc <+: t.working then some item else t.find? place := by
  by_cases hplace : place <+: t.working
  · rw [find?_eq_directory (t.set loc item) hplace, find?_eq_directory t hplace, if_neg]
    rintro ⟨rfl, hnot⟩
    exact hnot hplace
  · rw [find?_set t loc item hplace]
    grind

end NodeHeader.Files.Tree
