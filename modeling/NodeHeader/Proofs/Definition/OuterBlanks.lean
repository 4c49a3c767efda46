/-
  Line ends and blanks around lines.

  A reading looks at an entry without the blanks around it, so an entry can be replaced by its
  trimmed form (`Entry.parse_bare`, `Table.ofEntries_map_bare`). The table of a text is therefore
  that of its trimmed lines (`Table.ofText_eq_trimmedLines`), whatever ends its lines and whatever
  blanks stand around them.

  `Relaid` lists the changes of a text that keep its trimmed lines, up to an empty line at the end:
  carriage returns before the line feeds, a last line feed, and blanks at the start or the end of a
  line. None of them, in whatever number and order, makes a difference to what is read
  (`Table.ofText_relaid`).
-/
import NodeHeader.Proofs.Definition.RoundTrip
import Mathlib.Logic.Relation

namespace NodeHeader

open NodeHeader.Text (isAllBlank lineEnds trim trimmedLines)

/-! ### Entries without the blanks around them -/

namespace Entry

/-- An entry without the blanks around it. -/
def bare (e : Entry) : Entry :=
  { e with text := e.trimmed }

variable (e : Entry)

theorem trim_text_bare : trim e.bare.text.toList = trim e.text.toList := by
  rw [bare, trimmed, String.toList_ofList, Text.trim_trim]

theorem trimmed_bare : e.bare.trimmed = e.trimmed :=
  congrArg String.ofList e.trim_text_bare

theorem parseField_bare (position : Nat) (piece : List Char) :
    e.bare.parseField position piece = e.parseField position piece := by
  unfold parseField
  rw [e.trimmed_bare]
  rfl

theorem parseFields_bare (position : Nat) (pieces : List (List Char)) :
    e.bare.parseFields position pieces = e.parseFields position pieces := by
  induction pieces generalizing position with
  | nil => rfl
  | cons piece rest ih => rw [parseFields, parseFields, parseField_bare, ih]

/-- An entry is parsed as it is without outer blanks. -/
theorem parse_bare : e.bare.parse = e.parse := by
  unfold parse
  simp only [e.trim_text_bare, e.parseFields_bare, e.trimmed_bare]
  rfl

end Entry

theorem Reading.step_bare (r : Reading) (e : Entry) : r.step e.bare = r.step e := by
  unfold step
  rw [e.parse_bare, e.trimmed_bare]
  rfl

theorem Reading.run_map_bare (r : Reading) (entries : List Entry) :
    r.run (entries.map Entry.bare) = r.run entries := by
  induction entries generalizing r with
  | nil => rfl
  | cons e rest ih =>
    rw [List.map_cons, run, run, step_bare]
    simp only [ih]

/-- A table depends on the entries without their outer blanks alone. -/
theorem Table.ofEntries_map_bare (entries : List Entry) :
    ofEntries (entries.map Entry.bare) = ofEntries entries := by
  rw [ofEntries, ofEntries, Reading.run_map_bare]

/-! ### Trimmed lines -/

/-- The entries of lines, numbered from 1. -/
def lineEntries (lines : List (List Char)) : List Entry :=
  ((lines.zipIdx 1).filter fun (cs, _) => !isPassedOver cs).map
    fun (cs, line) => { line, text := String.ofList cs }

theorem lineEntries_concat_nil (lines : List (List Char)) :
    lineEntries (lines ++ [[]]) = lineEntries lines := by
  have hlast : (List.zipIdx [[]] (1 + lines.length)).filter
      (fun p : List Char × Nat => !isPassedOver p.1) = [] := rfl
  rw [lineEntries, List.zipIdx_append, List.filter_append, hlast, List.append_nil, ← lineEntries]

theorem map_bare_lineEntries (lines : List (List Char)) :
    (lineEntries lines).map Entry.bare = lineEntries (lines.map trim) := by
  have hpass (p : List Char × Nat) : isPassedOver (trim p.1) = isPassedOver p.1 := by
    rw [isPassedOver, Text.trim_trim, ← isPassedOver]
  have hbare (p : List Char × Nat) : Entry.bare ⟨p.2, String.ofList p.1⟩ =
      ⟨p.2, String.ofList (trim p.1)⟩ := by
    rw [Entry.bare, Entry.trimmed, String.toList_ofList]
  simp only [lineEntries, List.zipIdx_map, List.filter_map, List.map_map, Function.comp_def, hpass,
    hbare, Prod.map, id]

/-- A text reads as its trimmed lines. -/
theorem Table.ofText_eq_trimmedLines (text : String) :
    ofText text = ofEntries (lineEntries (trimmedLines text.toList)) := by
  have hentries : textEntries text = lineEntries (Text.lines text.toList) := rfl
  rw [ofText, ← ofEntries_map_bare, hentries, map_bare_lineEntries]
  rcases Text.trimmedLines_eq_or text.toList with h | h
  · rw [h]
  · rw [h, lineEntries_concat_nil]

/-! ### Changes that keep the trimmed lines -/

/-- A text with a carriage return before each line feed. -/
def withReturns (cs : List Char) : List Char :=
  cs.flatMap fun c => if c = '\n' then ['\r', '\n'] else [c]

/-- The second text is the first one with other line ends, or with blanks at one end of a line. -/
inductive Relaid : List Char → List Char → Prop
  /-- Each line feed becomes a carriage return and a line feed. -/
  | returns (cs : List Char) : Relaid cs (withReturns cs)
  /-- A line feed is put at the end. -/
  | finalFeed (cs : List Char) : Relaid cs (cs ++ ['\n'])
  /-- Blanks are put at the start of a line. -/
  | lineStart {before w after : List Char} (hstart : before = [] ∨ before.getLast? = some '\n')
    (hw : isAllBlank w = true) (hfeed : '\n' ∉ w) :
    Relaid (before ++ after) (before ++ w ++ after)
  /-- Blanks are put at the end of a line, before either end of it. -/
  | lineEnd {before w after : List Char}
    (hend : after = [] ∨ ∃ ending ∈ lineEnds, ∃ rest, after = ending ++ rest)
    (hw : isAllBlank w = true) (hfeed : '\n' ∉ w) :
    Relaid (before ++ after) (before ++ w ++ after)

theorem withReturns_of_not_mem {line : List Char} (h : '\n' ∉ line) : withReturns line = line := by
  have hchar : ∀ c ∈ line, (if c = '\n' then ['\r', '\n'] else [c]) = [c] := fun c hc =>
    if_neg fun heq : c = '\n' => h (heq ▸ hc)
  rw [withReturns, List.flatMap_congr hchar, List.flatMap_singleton']

theorem withReturns_append_feed {line : List Char} (h : '\n' ∉ line) (rest : List Char) :
    withReturns (line ++ '\n' :: rest) = (line ++ ['\r']) ++ '\n' :: withReturns rest := by
  rw [withReturns, List.flatMap_append, List.flatMap_cons, ← withReturns, ← withReturns,
    withReturns_of_not_mem h]
  simp

/-- A return before each line feed is trimmed away with the other blanks. -/
theorem trimmedLines_withReturns (cs : List Char) :
    trimmedLines (withReturns cs) = trimmedLines cs := by
  induction cs using Text.line_induction with
  | last line h => rw [withReturns_of_not_mem h]
  | cons line rest h ih =>
    have hreturn : '\n' ∉ line ++ ['\r'] := by simpa using h
    rw [withReturns_append_feed h, Text.trimmedLines_line_append hreturn,
      Text.trimmedLines_line_append h, Text.trim_append_blanks (by decide), ih]

section Blanks

variable {w : List Char} (hw : isAllBlank w = true) (hfeed : '\n' ∉ w)
include hw hfeed

theorem trimmedLines_blanks_append (cs : List Char) : trimmedLines (w ++ cs) = trimmedLines cs := by
  induction cs using Text.line_induction with
  | last line h =>
    have hline : '\n' ∉ w ++ line := by simp [hfeed, h]
    rw [Text.trimmedLines_of_not_mem hline, Text.trimmedLines_of_not_mem h,
      Text.trim_blanks_append hw]
  | cons line rest h _ =>
    have hline : '\n' ∉ w ++ line := by simp [hfeed, h]
    rw [← List.append_assoc, Text.trimmedLines_line_append hline, Text.trimmedLines_line_append h,
      Text.trim_blanks_append hw]

theorem trimmedLines_append_blanks (cs : List Char) : trimmedLines (cs ++ w) = trimmedLines cs := by
  induction cs using Text.line_induction with
  | last line h =>
    have hline : '\n' ∉ line ++ w := by simp [hfeed, h]
    rw [Text.trimmedLines_of_not_mem hline, Text.trimmedLines_of_not_mem h,
      Text.trim_append_blanks hw]
  | cons line rest h ih =>
    rw [List.append_assoc, List.cons_append, Text.trimmedLines_line_append h,
      Text.trimmedLines_line_append h, ih]

theorem trimmedLines_lineStart {before : List Char}
    (hstart : before = [] ∨ before.getLast? = some '\n') (after : List Char) :
    trimmedLines (before ++ w ++ after) = trimmedLines (before ++ after) := by
  rcases hstart with rfl | hlast
  · exact trimmedLines_blanks_append hw hfeed after
  · obtain ⟨front, rfl⟩ := List.getLast?_eq_some_iff.1 hlast
    have hsplit (rest : List Char) : trimmedLines (front ++ ['\n'] ++ rest) =
        trimmedLines front ++ trimmedLines rest := by
      rw [List.append_assoc, List.singleton_append, Text.trimmedLines_append_feed]
    rw [List.append_assoc, hsplit, hsplit, trimmedLines_blanks_append hw hfeed]

theorem trimmedLines_lineEnd (before : List Char) {after : List Char}
    (hend : after = [] ∨ ∃ ending ∈ lineEnds, ∃ rest, after = ending ++ rest) :
    trimmedLines (before ++ w ++ after) = trimmedLines (before ++ after) := by
  rcases hend with rfl | ⟨ending, hmem, rest, rfl⟩
  · rw [List.append_nil, List.append_nil, trimmedLines_append_blanks hw hfeed]
  -- the carriage return of a line end goes with the blanks before it
  obtain ⟨r, hr, hrfeed, rfl⟩ :
      ∃ r : List Char, isAllBlank r = true ∧ '\n' ∉ r ∧ ending = r ++ ['\n'] := by
    simp only [lineEnds, List.mem_cons, List.not_mem_nil, or_false] at hmem
    rcases hmem with rfl | rfl
    · exact ⟨[], rfl, by decide, rfl⟩
    · exact ⟨['\r'], by decide, by decide, rfl⟩
  have hsplit (front : List Char) : trimmedLines (front ++ (r ++ ['\n'] ++ rest)) =
      trimmedLines front ++ trimmedLines rest := by
    have happ : front ++ (r ++ ['\n'] ++ rest) = front ++ r ++ '\n' :: rest := by simp
    rw [happ, Text.trimmedLines_append_feed, trimmedLines_append_blanks hr hrfeed]
  rw [hsplit, hsplit, trimmedLines_append_blanks hw hfeed]

end Blanks

/-- A change of this kind keeps the entries. -/
theorem Relaid.lineEntries_eq {cs ds : List Char} (h : Relaid cs ds) :
    lineEntries (trimmedLines ds) = lineEntries (trimmedLines cs) := by
  cases h with
  | returns => rw [trimmedLines_withReturns]
  | finalFeed => rw [Text.trimmedLines_append_feed, Text.trimmedLines_of_not_mem List.not_mem_nil,
      Text.trim_eq_nil_iff.2 rfl, lineEntries_concat_nil]
  | lineStart hstart hw hfeed => rw [trimmedLines_lineStart hw hfeed hstart]
  | lineEnd hend hw hfeed => rw [trimmedLines_lineEnd hw hfeed _ hend]

/-- Line ends and the blanks around lines do not matter to definitions. Whichever of the changes
are made, in whatever number and order, and undone as well as made, the text has the same table, or
is refused with the same error, and the same is told of it. -/
theorem Table.ofText_relaid {text text' : String}
    (h : Relation.EqvGen Relaid text.toList text'.toList) : ofText text' = ofText text := by
  have hentries : ∀ cs ds, Relation.EqvGen Relaid cs ds →
      lineEntries (trimmedLines ds) = lineEntries (trimmedLines cs) := by
    intro cs ds h
    induction h with
    | rel _ _ h => exact h.lineEntries_eq
    | refl => rfl
    | symm _ _ _ ih => exact ih.symm
    | trans _ _ _ _ _ ih ih' => exact ih'.trans ih
  rw [ofText_eq_trimmedLines, ofText_eq_trimmedLines, hentries _ _ h]

/-- Carriage returns, an ideographic space before a comment, a tab after an entry of one word and
a line feed after it change nothing in the refusal of the entry. -/
theorem Table.ofText_relaid_comment :
    ofText "\u3000#c\r\nA: int\t\n" = ofText "#c\nA: int" ∧
    (ofText "\u3000#c\r\nA: int\t\n").result =
      .error (.malformedField 2 "A: int" 0 "int") := by
  have hreturns : Relaid "#c\nA: int".toList "#c\r\nA: int".toList := .returns _
  have hstart : Relaid ([] ++ "#c\r\nA: int".toList)
      ([] ++ ['\u3000'] ++ "#c\r\nA: int".toList) :=
    .lineStart (.inl rfl) (by decide) (by decide)
  have hend : Relaid ("\u3000#c\r\nA: int".toList ++ [])
      ("\u3000#c\r\nA: int".toList ++ ['\t'] ++ []) :=
    .lineEnd (.inl rfl) (by decide) (by decide)
  have hfeed : Relaid "\u3000#c\r\nA: int\t".toList "\u3000#c\r\nA: int\t\n".toList :=
    .finalFeed _
  have hsame : ofText "\u3000#c\r\nA: int\t\n" = ofText "#c\nA: int" :=
    ofText_relaid (.trans _ _ _ (.rel _ _ hreturns) (.trans _ _ _ (.rel _ _ hstart)
      (.trans _ _ _ (.rel _ _ hend) (.rel _ _ hfeed))))
  refine ⟨hsame, ?_⟩
  rw [hsame]
  rfl

end NodeHeader
