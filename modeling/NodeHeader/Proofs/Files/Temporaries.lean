/-
  Numbered temporary files keep what is promised.

  A name that is picked is one that nothing has (`Temporaries.find?_of_unusedName?`), so a numbered
  file is a new one. The rest holds by the way the maker is put together
  (`Temporaries.numbered_lawful`).
-/
import NodeHeader.Files.Temporaries
import NodeHeader.Proofs.Traced

namespace NodeHeader.Files.Temporaries

theorem find?_of_unusedName? {t : Tree} {place : Location} {n : Nat} {name : Name}
    (h : unusedName? t place n = some name) : t.find? (place ++ [name]) = none := by
  induction n with
  | zero => cases h
  | succ n ih =>
    rw [unusedName?] at h
    split at h
    · next hnone =>
      obtain rfl := Option.some.inj h
      exact Option.isNone_iff_eq_none.1 hnone
    · exact ih h

/-- A numbered file stands in the directory, where nothing stood before, and is all that is new. -/
theorem createNumbered_ok {t t' : Tree} {directory : Path} {asked : Mode} {temporary : Location}
    (h : createNumbered t directory asked = .ok (t', temporary)) :
    (∃ place name, t.locateDirectory (t.start directory) directory.names = .ok place ∧
        temporary = place ++ [name]) ∧
      t.find? temporary = none ∧ t' = t.set temporary (.file (t.newMode asked) []) := by
  unfold createNumbered at h
  split at h
  · cases h
  split at h
  · cases h
  obtain ⟨place, hplace, h⟩ := Except.bind_eq_ok_iff.1 h
  split at h
  · next name hname =>
    obtain ⟨rfl, rfl⟩ := Prod.mk.inj (Except.ok.inj h)
    exact ⟨⟨place, name, hplace, rfl⟩, find?_of_unusedName? hname, rfl⟩
  · cases h

/-- A numbered file is made in a directory in which nothing has the name that is tried first. -/
theorem createNumbered_of_find?_eq_none {t : Tree} {directory : Path} {place : Location}
    (hzero : directory.bytes.contains 0 = false)
    (hlength : (absolute t directory).bytes.length + addedLength < Path.lengthLimit)
    (hplace : t.locateDirectory (t.start directory) directory.names = .ok place)
    (hnone : t.find? (place ++ [numberedName 65535]) = none) (asked : Mode) :
    numbered.create t directory asked =
      .ok (t.set (place ++ [numberedName 65535]) (.file (t.newMode asked) []),
        place ++ [numberedName 65535]) := by
  show createNumbered t directory asked = _
  have hname : unusedName? t place attempts = some (numberedName 65535) := by
    rw [attempts, unusedName?, hnone]
    rfl
  rw [createNumbered, if_neg (by rw [hzero]; simp), if_neg (Nat.not_le.2 hlength), hplace]
  simp only [bind, Except.bind, hname]
  rfl

theorem numbered_lawful : numbered.Lawful where
  create_ok := createNumbered_ok
  persist_eq _ _ _ := rfl
  discard_eq _ _ := rfl

end NodeHeader.Files.Temporaries
