/-
  The lines of a text, from its start.

  A text whose first line is ended is that line and the lines of what follows
  (`lines_append_feed`); a text without a line feed is one line, or none if it is empty
  (`lines_of_not_mem`). A carriage return that goes with its line feed is a blank, so it makes
  no difference to a line that is trimmed (`trim_dropReturn`).

  The lines of a text without the blanks around them are read off the text by its line feeds alone
  (`trimmedLines`), but for an empty line at its end (`trimmedLines_eq_or`). Such statements are
  proved along the lines (`line_induction`).
-/
import NodeHeader.Proofs.Text.Words
import NodeHeader.Text.Lines

namespace NodeHeader.Text

/-! ### Carriage returns -/

theorem dropReturn_of_not_mem {line : List Char} (h : '\r' ∉ line) : dropReturn line = line := by
  rw [dropReturn, if_neg]
  intro hlast
  exact h (List.mem_of_getLast? hlast)

theorem dropReturn_concat (line : List Char) : dropReturn (line ++ ['\r']) = line := by
  rw [dropReturn, if_pos (by simp), List.dropLast_concat]

theorem trim_dropReturn (line : List Char) : trim (dropReturn line) = trim line := by
  by_cases hlast : line.getLast? = some '\r'
  · obtain ⟨front, rfl⟩ := List.getLast?_eq_some_iff.1 hlast
    rw [dropReturn_concat, trim_append_blanks (by decide)]
  · rw [dropReturn, if_neg hlast]

/-! ### Lines -/

/-- The two ends of a line. -/
def lineEnds : List (List Char) :=
  [['\n'], ['\r', '\n']]

/-- A text up to its first line feed is its first line, less a return at the end. -/
theorem lines_append_feed {line : List Char} (h : '\n' ∉ line) (rest : List Char) :
    lines (line ++ '\n' :: rest) = dropReturn line :: lines rest := by
  have hrest : rest.splitOn '\n' ≠ [] := List.splitOn_ne_nil '\n' rest
  simp only [lines, List.splitOn_append_cons_self_of_not_mem h,
    List.dropLast_cons_of_ne_nil hrest, List.map_cons, List.cons_append]
  rw [List.getLast?_cons_of_ne_nil hrest]

theorem lines_of_not_mem {line : List Char} (h : '\n' ∉ line) :
    lines line = [line].filter (!·.isEmpty) := by
  simp only [lines, List.splitOn_eq_singleton h]
  rfl

/-- Either end of a line closes it; a carriage return before a line feed is lost. -/
theorem exists_lines_append_end {line ending : List Char} (h : '\n' ∉ line)
    (hend : ending ∈ lineEnds) (rest : List Char) : ∃ first,
      lines (line ++ ending ++ rest) = first :: lines rest ∧
        (first = line ∨ first = dropReturn line) := by
  simp only [lineEnds, List.mem_cons, List.not_mem_nil, or_false] at hend
  rcases hend with rfl | rfl
  · refine ⟨dropReturn line, ?_, .inr rfl⟩
    rw [List.append_assoc, List.singleton_append, lines_append_feed h]
  · refine ⟨line, ?_, .inl rfl⟩
    have hline : '\n' ∉ line ++ ['\r'] := by simpa using h
    rw [List.append_assoc, List.cons_append, List.singleton_append, ← List.singleton_append,
      ← List.append_assoc, lines_append_feed hline, dropReturn_concat]

/-- A text is a line without a line feed, or such a line, a line feed and a further text. -/
@[elab_as_elim]
theorem line_induction {motive : List Char → Prop} (last : ∀ line, '\n' ∉ line → motive line)
    (cons : ∀ line rest, '\n' ∉ line → motive rest → motive (line ++ '\n' :: rest))
    (cs : List Char) : motive cs := by
  induction hN : cs.length using Nat.strongRecOn generalizing cs with
  | _ N ih =>
    by_cases hmem : '\n' ∈ cs
    · obtain ⟨line, rest, rfl, hline⟩ := List.eq_append_cons_of_mem hmem
      have hlt : rest.length < N := by
        rw [← hN, List.length_append, List.length_cons]
        omega
      exact cons line rest hline (ih rest.length hlt rest rfl)
    · exact last cs hmem

/-! ### Trimmed lines -/

/-- What stands between line feeds, each without the blanks around it. -/
def trimmedLines (cs : List Char) : List (List Char) :=
  (cs.splitOn '\n').map trim

theorem trimmedLines_of_not_mem {line : List Char} (h : '\n' ∉ line) :
    trimmedLines line = [trim line] := by
  rw [trimmedLines, List.splitOn_eq_singleton h]
  rfl

theorem trimmedLines_append_feed (cs ds : List Char) :
    trimmedLines (cs ++ '\n' :: ds) = trimmedLines cs ++ trimmedLines ds := by
  rw [trimmedLines, List.splitOn_append_cons_self, List.map_append, ← trimmedLines, ← trimmedLines]

theorem trimmedLines_line_append {line : List Char} (h : '\n' ∉ line) (rest : List Char) :
    trimmedLines (line ++ '\n' :: rest) = trim line :: trimmedLines rest := by
  rw [trimmedLines_append_feed, trimmedLines_of_not_mem h, List.singleton_append]

/-- The lines of a text are what stands between its line feeds, up to the blanks around them and a
last one that is empty. -/
theorem trimmedLines_eq_or (cs : List Char) :
    trimmedLines cs = (lines cs).map trim ∨ trimmedLines cs = (lines cs).map trim ++ [[]] := by
  induction cs using line_induction with
  | last line h =>
    rw [trimmedLines_of_not_mem h, lines_of_not_mem h]
    cases line with
    | nil => exact .inr rfl
    | cons c rest => exact .inl rfl
  | cons line rest h ih =>
    rw [trimmedLines_line_append h, lines_append_feed h, List.map_cons, trim_dropReturn]
    rcases ih with ih | ih
    · exact .inl (congrArg (trim line :: ·) ih)
    · exact .inr (congrArg (trim line :: ·) ih)

end NodeHeader.Text
