/-
  Blanks, trimming and words.

  White space is the Unicode property of that name, 25 characters in all, ten
  of them below U+0100. Every rule of the library that skips, trims or separates
  by white space uses this one class, so a no-break space or an ideographic
  space separates words just as an ordinary space does.
-/

namespace NodeHeader.Text

/-! ### The class -/

/-- The ranges of code points that are white space, both ends included. -/
def blankRanges : List (Nat × Nat) :=
  [(0x0009, 0x000D), (0x0020, 0x0020), (0x0085, 0x0085), (0x00A0, 0x00A0), (0x1680, 0x1680),
   (0x2000, 0x200A), (0x2028, 0x2029), (0x202F, 0x202F), (0x205F, 0x205F), (0x3000, 0x3000)]

/-- Whether a character is white space. -/
def isBlank (c : Char) : Bool :=
  blankRanges.any fun (first, last) => first ≤ c.toNat && c.toNat ≤ last

/-! ### Trimming and words -/

/-- The characters without the blanks at either end. -/
def trim (cs : List Char) : List Char :=
  ((cs.dropWhile isBlank).reverse.dropWhile isBlank).reverse

/-- Whether there is nothing but blanks. -/
def isAllBlank (cs : List Char) : Bool :=
  cs.all isBlank

/-- The maximal runs of characters that are not blanks, in order. -/
def words (cs : List Char) : List (List Char) :=
  (cs.splitOnP isBlank).filter (!·.isEmpty)

/-- A text of blanks alone trims to nothing. -/
theorem trim_eq_nil_iff {cs : List Char} : trim cs = [] ↔ isAllBlank cs = true := by
  have key : ∀ l : List Char, l.dropWhile isBlank = [] ↔ ∀ c ∈ l, isBlank c = true := by
    intro l
    induction l with
    | nil => simp
    | cons c r ih => by_cases h : isBlank c = true <;> simp [h, ih]
  rw [trim, isAllBlank, List.all_eq_true, List.reverse_eq_nil_iff, key]
  constructor
  · intro h
    have hd : cs.dropWhile isBlank = [] := by
      cases hcs : cs.dropWhile isBlank with
      | nil => rfl
      | cons c r =>
        have hc : isBlank c = true := h c (by simp [hcs])
        have hn := List.head_dropWhile_not isBlank (l := cs) (by simp [hcs])
        simp [hcs, hc] at hn
    exact (key cs).1 hd
  · intro h c hc
    exact h c ((List.dropWhile_sublist _).mem (List.mem_reverse.1 hc))

end NodeHeader.Text
