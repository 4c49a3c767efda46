/-
  How blanks, trimming and words fit together.

  A word is a run of characters without a blank. Every text is its trimmed part with blanks
  around it (`exists_pad_trim`), and trimming takes away what stands around a part that
  begins and ends with a word (`trim_pad`). The words of a text are found one after another
  (`words_eq_cons`), which gives the form of the texts of two words: blanks, a word, at
  least one blank, a word, blanks (`words_eq_pair_iff`).
-/
import NodeHeader.Text.Blank

namespace NodeHeader.Text

/-! ### Cutting at an element -/

theorem takeWhile_ne_append {α : Type} [DecidableEq α] {a : α} {before : List α} (h : a ∉ before)
    (after : List α) : (before ++ a :: after).takeWhile (· ≠ a) = before := by
  have hpos : ∀ b ∈ before, decide (b ≠ a) = true := fun b hb =>
    decide_eq_true fun heq => h (heq ▸ hb)
  rw [List.takeWhile_append_of_pos hpos, List.takeWhile_cons_of_neg (by simp), List.append_nil]

theorem dropWhile_ne_append {α : Type} [DecidableEq α] {a : α} {before : List α} (h : a ∉ before)
    (after : List α) : (before ++ a :: after).dropWhile (· ≠ a) = a :: after := by
  have hpos : ∀ b ∈ before, decide (b ≠ a) = true := fun b hb =>
    decide_eq_true fun heq => h (heq ▸ hb)
  rw [List.dropWhile_append_of_pos hpos, List.dropWhile_cons_of_neg (by simp)]

/-! ### Blanks alone -/

theorem isAllBlank_append {cs ds : List Char} :
    isAllBlank (cs ++ ds) = true ↔ isAllBlank cs = true ∧ isAllBlank ds = true := by
  simp [isAllBlank, List.all_append]

theorem isBlank_of_mem {cs : List Char} (h : isAllBlank cs = true) : ∀ c ∈ cs, isBlank c = true :=
  List.all_eq_true.1 h

theorem isAllBlank_takeWhile (cs : List Char) : isAllBlank (cs.takeWhile isBlank) = true :=
  List.all_takeWhile

theorem isAllBlank_reverse {cs : List Char} : isAllBlank cs.reverse = isAllBlank cs :=
  List.all_reverse

/-- A run of characters, not empty and without a blank. -/
structure IsWord (w : List Char) : Prop where
  ne_nil : w ≠ []
  not_blank : ∀ c ∈ w, isBlank c = false

namespace IsWord

theorem reverse {w : List Char} (h : IsWord w) : IsWord w.reverse where
  ne_nil := by simpa using h.ne_nil
  not_blank c hc := h.not_blank c (List.mem_reverse.1 hc)

theorem not_isAllBlank {w : List Char} (h : IsWord w) : isAllBlank w = false := by
  obtain ⟨c, r, rfl⟩ := List.exists_cons_of_ne_nil h.ne_nil
  simp [isAllBlank, h.not_blank c List.mem_cons_self]

theorem dropWhile_append {w : List Char} (h : IsWord w) (rest : List Char) :
    (w ++ rest).dropWhile isBlank = w ++ rest := by
  obtain ⟨c, r, rfl⟩ := List.exists_cons_of_ne_nil h.ne_nil
  rw [List.cons_append, List.dropWhile_cons_of_neg]
  simp [h.not_blank c List.mem_cons_self]

end IsWord

/-! ### Trimming -/

theorem trim_blanks_append {w : List Char} (h : isAllBlank w = true) (cs : List Char) :
    trim (w ++ cs) = trim cs := by
  rw [trim, List.dropWhile_append_of_pos (isBlank_of_mem h), ← trim]

theorem trim_append_blanks {w : List Char} (h : isAllBlank w = true) (cs : List Char) :
    trim (cs ++ w) = trim cs := by
  have hw : w.dropWhile isBlank = [] := by
    rw [← List.append_nil w, List.dropWhile_append_of_pos (isBlank_of_mem h), List.dropWhile_nil]
  have hr : ∀ c ∈ w.reverse, isBlank c = true := fun c hc =>
    isBlank_of_mem h c (List.mem_reverse.1 hc)
  unfold trim
  rw [List.dropWhile_append]
  split
  · next hcs => simp [hw, List.isEmpty_iff.1 hcs]
  · rw [List.reverse_append, List.dropWhile_append_of_pos hr]

/-- Trimming takes away exactly what is around a part that begins and ends with a word. -/
theorem trim_pad {before first middle last after : List Char} (hb : isAllBlank before = true)
    (hf : IsWord first) (hl : IsWord last) (ha : isAllBlank after = true) :
    trim (before ++ (first ++ middle ++ last) ++ after) = first ++ middle ++ last := by
  rw [trim_append_blanks ha, trim_blanks_append hb, trim, List.append_assoc, hf.dropWhile_append,
    ← List.append_assoc, List.reverse_append, hl.reverse.dropWhile_append]
  simp

/-- A word is what is left of it when it is trimmed, whatever blanks stand around it. -/
theorem trim_pad_word {before w after : List Char} (hb : isAllBlank before = true) (hw : IsWord w)
    (ha : isAllBlank after = true) : trim (before ++ w ++ after) = w := by
  rw [trim_append_blanks ha, trim_blanks_append hb, trim, ← List.append_nil w,
    hw.dropWhile_append, List.append_nil, ← List.append_nil w.reverse,
    hw.reverse.dropWhile_append]
  simp

/-- Every text is its trimmed part with blanks around it. -/
theorem exists_pad_trim (cs : List Char) : ∃ before after,
    isAllBlank before = true ∧ isAllBlank after = true ∧ cs = before ++ trim cs ++ after := by
  refine ⟨cs.takeWhile isBlank, ((cs.dropWhile isBlank).reverse.takeWhile isBlank).reverse,
    isAllBlank_takeWhile cs, ?_, ?_⟩
  · rw [isAllBlank_reverse]
    exact isAllBlank_takeWhile _
  · rw [trim, List.append_assoc, ← List.reverse_append, List.takeWhile_append_dropWhile,
      List.reverse_reverse, List.takeWhile_append_dropWhile]

theorem trim_trim (cs : List Char) : trim (trim cs) = trim cs := by
  obtain ⟨before, after, hb, ha, heq⟩ := exists_pad_trim cs
  have hpad : trim cs = trim (before ++ trim cs ++ after) := congrArg trim heq
  rw [trim_append_blanks ha, trim_blanks_append hb] at hpad
  exact hpad.symm

/-- A text that does not start with a blank starts with the same character when trimmed. -/
theorem exists_trim_cons {c : Char} (hc : isBlank c = false) (cs : List Char) :
    ∃ ds, trim (c :: cs) = c :: ds := by
  obtain ⟨before, after, hb, ha, heq⟩ := exists_pad_trim (c :: cs)
  cases before with
  | cons b rest =>
    obtain ⟨rfl, -⟩ := List.cons.inj heq
    rw [isBlank_of_mem hb c List.mem_cons_self] at hc
    cases hc
  | nil =>
    cases htrim : trim (c :: cs) with
    | cons d ds =>
      rw [htrim] at heq
      obtain ⟨rfl, -⟩ := List.cons.inj heq
      exact ⟨ds, rfl⟩
    | nil =>
      have hall : isAllBlank (c :: cs) = true := trim_eq_nil_iff.1 htrim
      rw [isBlank_of_mem hall c List.mem_cons_self] at hc
      cases hc

/-! ### Words -/

/-- A blank parts the words before it from those behind it. -/
theorem words_append_cons {b : Char} (hb : isBlank b = true) (cs ds : List Char) :
    words (cs ++ b :: ds) = words cs ++ words ds := by
  rw [words, List.splitOnP_append_cons cs ds hb, List.filter_append, ← words, ← words]

theorem words_of_isAllBlank {cs : List Char} (h : isAllBlank cs = true) : words cs = [] := by
  induction cs with
  | nil => rfl
  | cons c rest ih =>
    simp only [isAllBlank, List.all_cons, Bool.and_eq_true] at h
    rw [← List.nil_append (c :: rest), words_append_cons h.1, ih h.2]
    rfl

theorem words_blanks_append {w : List Char} (h : isAllBlank w = true) (cs : List Char) :
    words (w ++ cs) = words cs := by
  induction w with
  | nil => rfl
  | cons b rest ih =>
    simp only [isAllBlank, List.all_cons, Bool.and_eq_true] at h
    rw [List.cons_append, ← List.nil_append (b :: _), words_append_cons h.1, ih h.2]
    rfl

/-- What may follow a word: nothing, or a blank and anything. -/
def EndsWord (rest : List Char) : Prop :=
  ∀ c r, rest = c :: r → isBlank c = true

theorem endsWord_of_isAllBlank_append {w : List Char} (hw : isAllBlank w = true) (hne : w ≠ [])
    (cs : List Char) : EndsWord (w ++ cs) := by
  rintro c r h
  obtain ⟨b, t, rfl⟩ := List.exists_cons_of_ne_nil hne
  obtain ⟨rfl, -⟩ := List.cons.inj h
  exact isBlank_of_mem hw b List.mem_cons_self

theorem endsWord_of_isAllBlank {w : List Char} (hw : isAllBlank w = true) : EndsWord w := by
  rintro c r rfl
  exact isBlank_of_mem hw c List.mem_cons_self

theorem words_word {w : List Char} (hw : IsWord w) : words w = [w] := by
  rw [words, List.splitOnP_eq_singleton hw.not_blank]
  simp [hw.ne_nil]

theorem words_word_append {w rest : List Char} (hw : IsWord w) (hr : EndsWord rest) :
    words (w ++ rest) = w :: words rest := by
  cases rest with
  | nil => rw [List.append_nil, words_word hw]; rfl
  | cons b r =>
    have hb : isBlank b = true := hr b r rfl
    rw [words_append_cons hb, words_word hw, ← List.nil_append (b :: r), words_append_cons hb]
    rfl

/-- A text that holds something else than blanks starts with blanks and a word. -/
theorem exists_word_of_not_isAllBlank {cs : List Char} (h : isAllBlank cs = false) :
    ∃ before w rest, cs = before ++ w ++ rest ∧ isAllBlank before = true ∧ IsWord w ∧
      EndsWord rest := by
  have hne : cs.dropWhile isBlank ≠ [] := by
    intro hnil
    have hall := isAllBlank_takeWhile cs
    rw [← List.append_nil (cs.takeWhile isBlank), ← hnil, List.takeWhile_append_dropWhile,
      h] at hall
    exact absurd hall (by simp)
  have hhead := List.head_dropWhile_not isBlank hne
  refine ⟨cs.takeWhile isBlank, (cs.dropWhile isBlank).takeWhile (!isBlank ·),
    (cs.dropWhile isBlank).dropWhile (!isBlank ·), ?_, isAllBlank_takeWhile cs, ⟨?_, ?_⟩, ?_⟩
  · rw [List.append_assoc, List.takeWhile_append_dropWhile, List.takeWhile_append_dropWhile]
  · obtain ⟨c, r, hc⟩ := List.exists_cons_of_ne_nil hne
    simp only [hc, List.head_cons] at hhead
    rw [hc, List.takeWhile_cons_of_pos (by simp [hhead])]
    simp
  · intro c hc
    simpa using List.all_eq_true.1 (List.all_takeWhile (p := (!isBlank ·))) c hc
  · intro c r hc
    have hnot := List.head_dropWhile_not (!isBlank ·) (l := cs.dropWhile isBlank) (by simp [hc])
    simpa [hc] using hnot

/-- The first word of a text, with the blanks before it, can be taken off. -/
theorem words_eq_cons {cs w : List Char} {ws : List (List Char)} (h : words cs = w :: ws) :
    ∃ before rest, cs = before ++ w ++ rest ∧ isAllBlank before = true ∧ IsWord w ∧
      EndsWord rest ∧ words rest = ws := by
  have hcs : isAllBlank cs = false := by
    cases hall : isAllBlank cs with
    | false => rfl
    | true =>
      rw [words_of_isAllBlank hall] at h
      exact absurd h (by simp)
  obtain ⟨before, w', rest, rfl, hb, hw, hr⟩ := exists_word_of_not_isAllBlank hcs
  rw [List.append_assoc, words_blanks_append hb, words_word_append hw hr] at h
  obtain ⟨rfl, hws⟩ := List.cons.inj h
  exact ⟨before, rest, rfl, hb, hw, hr, hws⟩

theorem words_eq_nil_iff {cs : List Char} : words cs = [] ↔ isAllBlank cs = true := by
  refine ⟨fun h => ?_, words_of_isAllBlank⟩
  cases hall : isAllBlank cs with
  | true => rfl
  | false =>
    obtain ⟨before, w, rest, rfl, hb, hw, hr⟩ := exists_word_of_not_isAllBlank hall
    rw [List.append_assoc, words_blanks_append hb, words_word_append hw hr] at h
    exact absurd h (by simp)

/-- A text has two words exactly if it is these with blanks between them and perhaps around them. -/
theorem words_eq_pair_iff {cs v w : List Char} :
    words cs = [v, w] ↔ ∃ before between after, cs = before ++ v ++ between ++ w ++ after ∧
      isAllBlank before = true ∧ IsWord v ∧ isAllBlank between = true ∧ between ≠ [] ∧
      IsWord w ∧ isAllBlank after = true := by
  constructor
  · intro h
    obtain ⟨before, rest, rfl, hb, hv, hr, hrest⟩ := words_eq_cons h
    obtain ⟨between, after, rfl, hm, hw, -, hafter⟩ := words_eq_cons hrest
    refine ⟨before, between, after, by simp [List.append_assoc], hb, hv, hm, ?_, hw,
      words_eq_nil_iff.1 hafter⟩
    -- without a blank between them the two would be one word
    rintro rfl
    obtain ⟨c, t, rfl⟩ := List.exists_cons_of_ne_nil hw.ne_nil
    have hblank : isBlank c = true := hr c (t ++ after) rfl
    rw [hw.not_blank c List.mem_cons_self] at hblank
    exact absurd hblank (by simp)
  · rintro ⟨before, between, after, rfl, hb, hv, hm, hne, hw, ha⟩
    have hrest : EndsWord (between ++ (w ++ after)) := endsWord_of_isAllBlank_append hm hne _
    rw [List.append_assoc, List.append_assoc, List.append_assoc, words_blanks_append hb,
      words_word_append hv hrest, words_blanks_append hm,
      words_word_append hw (endsWord_of_isAllBlank ha), words_of_isAllBlank ha]

end NodeHeader.Text
