/-
  The characters of names and types.

  The characters of an accepted name, and those of an accepted type, are of a fixed class of
  ASCII (`isIdentifierChar_of_mem`, `isTypeChar_of_mem`). No blank is in either class, so
  names and types are words (`isWord_of_isIdentifier`, `isWord_of_isTypeName`), and a
  separator outside the class does not occur in them (`not_mem_of_isIdentifier`,
  `not_mem_of_isTypeName`).
-/
import NodeHeader.Cpp.Identifier
import NodeHeader.Proofs.Text.Words

namespace NodeHeader.Cpp

open NodeHeader.Text (isBlank IsWord)

/-! ### The classes -/

theorem toNat_lt_of_isAlphanum {c : Char} (h : c.isAlphanum = true) : c.toNat < 128 := by
  have hranges : ((decide ('A'.val ≤ c.val ∧ c.val ≤ 'Z'.val) ||
      (decide ('a'.val ≤ c.val) && decide (c.val ≤ 'z'.val))) ||
      (decide ('0'.val ≤ c.val) && decide (c.val ≤ '9'.val))) = true := h
  simp only [Bool.or_eq_true, Bool.and_eq_true, decide_eq_true_eq, UInt32.le_iff_toNat_le]
    at hranges
  have hZ : 'Z'.val.toNat = 90 := rfl
  have hz : 'z'.val.toNat = 122 := rfl
  have h9 : '9'.val.toNat = 57 := rfl
  show c.val.toNat < 128
  omega

theorem toNat_lt_of_isTypeChar {c : Char} (h : isTypeChar c = true) : c.toNat < 128 := by
  rw [isTypeChar, Bool.or_eq_true] at h
  rcases h with h | h
  · exact toNat_lt_of_isAlphanum h
  · have hall : "_:*&<>[]".toList.all (·.toNat < 128) = true := by rfl
    have hc : c ∈ "_:*&<>[]".toList := by simpa using h
    simpa using List.all_eq_true.1 hall c hc

/-- What holds of every type character below 128 holds of every type character. -/
theorem forall_isTypeChar {P : Char → Prop}
    (h : ∀ n : Fin 128, isTypeChar (Char.ofNat n) = true → P (Char.ofNat n)) {c : Char}
    (hc : isTypeChar c = true) : P c := by
  have hP := h ⟨c.toNat, toNat_lt_of_isTypeChar hc⟩
  rw [Char.ofNat_toNat] at hP
  exact hP hc

theorem isBlank_eq_false_of_isTypeChar {c : Char} (h : isTypeChar c = true) :
    isBlank c = false :=
  forall_isTypeChar (P := fun c => isBlank c = false) (by decide +kernel) h

/-- All characters of identifiers may stand in types. -/
theorem isTypeChar_of_isIdentifierChar {c : Char} (h : isIdentifierChar c = true) :
    isTypeChar c = true := by
  simp only [isIdentifierChar, Bool.or_eq_true, decide_eq_true_eq] at h
  rcases h with rfl | h
  · decide
  · simp [isTypeChar, h]

theorem isIdentifierChar_of_startsIdentifier {c : Char} (h : startsIdentifier c = true) :
    isIdentifierChar c = true := by
  simp only [startsIdentifier, isIdentifierChar, Char.isAlphanum, Bool.or_eq_true] at h ⊢
  exact h.imp_right Or.inl

/-! ### Names -/

theorem isIdentifierChar_of_mem {name : String} (h : isIdentifier name = true) :
    ∀ c ∈ name.toList, isIdentifierChar c = true := by
  unfold isIdentifier at h
  intro c hc
  split at h
  · next hnil => simp [hnil] at hc
  · next first rest hcons =>
    simp only [Bool.and_eq_true, List.all_eq_true] at h
    rw [hcons] at hc
    rcases List.mem_cons.1 hc with rfl | hc
    · exact isIdentifierChar_of_startsIdentifier h.1.1
    · exact h.1.2 c hc

theorem toList_ne_nil_of_isIdentifier {name : String} (h : isIdentifier name = true) :
    name.toList ≠ [] := by
  rintro hnil
  simp [isIdentifier, hnil] at h

/-- An identifier is a word: it is not empty and has no blank in it. -/
theorem isWord_of_isIdentifier {name : String} (h : isIdentifier name = true) :
    IsWord name.toList where
  ne_nil := toList_ne_nil_of_isIdentifier h
  not_blank c hc :=
    isBlank_eq_false_of_isTypeChar (isTypeChar_of_isIdentifierChar (isIdentifierChar_of_mem h c hc))

/-- What is no character of identifiers does not occur in one. This is how names are told from what
stands around them. -/
theorem not_mem_of_isIdentifier {name : String} (h : isIdentifier name = true) {c : Char}
    (hc : isIdentifierChar c = false) : c ∉ name.toList := by
  intro hmem
  rw [isIdentifierChar_of_mem h c hmem] at hc
  exact absurd hc (by simp)

/-! ### Types -/

theorem isTypeChar_of_mem {typeName : String} (h : isTypeName typeName = true) :
    ∀ c ∈ typeName.toList, isTypeChar c = true := by
  unfold isTypeName at h
  intro c hc
  split at h
  · next hnil => simp [hnil] at hc
  · next first rest hcons =>
    simp only [Bool.and_eq_true, List.all_eq_true] at h
    exact h.2 c (hcons ▸ hc)

/-- A type is a word, too. -/
theorem isWord_of_isTypeName {typeName : String} (h : isTypeName typeName = true) :
    IsWord typeName.toList where
  ne_nil := by
    rintro hnil
    simp [isTypeName, hnil] at h
  not_blank c hc := isBlank_eq_false_of_isTypeChar (isTypeChar_of_mem h c hc)

theorem not_mem_of_isTypeName {typeName : String} (h : isTypeName typeName = true) {c : Char}
    (hc : isTypeChar c = false) : c ∉ typeName.toList := by
  intro hmem
  rw [isTypeChar_of_mem h c hmem] at hc
  exact absurd hc (by simp)

end NodeHeader.Cpp
