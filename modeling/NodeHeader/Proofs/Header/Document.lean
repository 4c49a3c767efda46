/-
  The text of a document and its lines.

  The text is the lines one after another, a line feed after each (`Document.toList_text`), so
  its length in bytes is that of the lines with one byte more for each of them
  (`Document.utf8ByteSize_text`). If each line is one line, without a line feed or a carriage
  return in it, then the lines of the text are those of the document (`Document.lines_text`) and
  there is one line feed for each (`Document.count_feed_text`).
-/
import NodeHeader.Header.Document
import NodeHeader.Proofs.Text.Lines
import Mathlib.Algebra.GroupWithZero.Nat

namespace NodeHeader

/-! ### Texts on one line -/

/-- Whether there is no line break in a text: no line feed and no carriage return. -/
structure OneLine (text : String) : Prop where
  feed_not_mem : '\n' ∉ text.toList
  return_not_mem : '\r' ∉ text.toList

theorem oneLine_iff {text : String} :
    OneLine text ↔ '\n' ∉ text.toList ∧ '\r' ∉ text.toList :=
  ⟨fun h => ⟨h.feed_not_mem, h.return_not_mem⟩, fun h => ⟨h.1, h.2⟩⟩

instance (text : String) : Decidable (OneLine text) :=
  decidable_of_iff _ oneLine_iff.symm

@[simp] theorem oneLine_append {a b : String} : OneLine (a ++ b) ↔ OneLine a ∧ OneLine b := by
  simp only [oneLine_iff, String.toList_append, List.mem_append, not_or]
  exact and_and_and_comm

/-! ### The text -/

namespace Document

theorem toList_text (d : Document) :
    d.text.toList = d.lines.flatMap fun line => line.toList ++ ['\n'] := by
  simp [text, List.flatMap_map]

theorem text_cons (line : String) (rest : List String) :
    (Document.mk (line :: rest)).text = line ++ "\n" ++ (Document.mk rest).text :=
  String.join_cons

/-- The bytes of a document are those of its lines, with one more for the end of each. -/
theorem utf8ByteSize_text (d : Document) :
    d.text.utf8ByteSize = (d.lines.map fun line => line.utf8ByteSize + 1).sum := by
  obtain ⟨lines⟩ := d
  induction lines with
  | nil => rfl
  | cons line rest ih =>
    rw [text_cons, String.utf8ByteSize_append, String.utf8ByteSize_append, ih, List.map_cons,
      List.sum_cons]
    rfl

theorem getLast?_text {d : Document} (h : d.lines ≠ []) : d.text.toList.getLast? = some '\n' := by
  obtain ⟨front, line, hline⟩ : ∃ front line, d.lines = front ++ [line] :=
    ⟨d.lines.dropLast, d.lines.getLast h, (List.dropLast_concat_getLast h).symm⟩
  rw [toList_text, hline, List.flatMap_append, List.flatMap_singleton, ← List.append_assoc,
    List.getLast?_concat]

variable {d : Document}

/-- There are as many line feeds in the text as there are lines. -/
theorem count_feed_text (h : ∀ line ∈ d.lines, OneLine line) :
    d.text.toList.count '\n' = d.length := by
  obtain ⟨lines⟩ := d
  rw [toList_text, length]
  induction lines with
  | nil => rfl
  | cons line rest ih =>
    have hline : line.toList.count '\n' = 0 :=
      List.count_eq_zero.2 (h line List.mem_cons_self).feed_not_mem
    have hrest := ih fun l hl => h l (List.mem_cons_of_mem line hl)
    rw [List.flatMap_cons, List.count_append, List.count_append, hline, hrest, List.length_cons]
    simp [Nat.add_comm]

/-- The lines of the text are the lines of the document. -/
theorem lines_text (h : ∀ line ∈ d.lines, OneLine line) :
    Text.lines d.text.toList = d.lines.map String.toList := by
  obtain ⟨lines⟩ := d
  rw [toList_text]
  induction lines with
  | nil => rfl
  | cons line rest ih =>
    have hline : OneLine line := h line List.mem_cons_self
    have hrest := ih fun l hl => h l (List.mem_cons_of_mem line hl)
    rw [List.flatMap_cons, List.append_assoc, List.singleton_append,
      Text.lines_append_feed hline.feed_not_mem, Text.dropReturn_of_not_mem hline.return_not_mem,
      hrest, List.map_cons]

/-- Documents of single lines are the same if their texts are. -/
theorem eq_of_text_eq {d' : Document} (h : ∀ line ∈ d.lines, OneLine line)
    (h' : ∀ line ∈ d'.lines, OneLine line) (heq : d.text = d'.text) : d = d' := by
  have hlines : d.lines.map String.toList = d'.lines.map String.toList := by
    rw [← lines_text h, ← lines_text h', heq]
  have hsame : d.lines = d'.lines :=
    (List.map_inj_right fun a b => String.toList_inj.1).1 hlines
  obtain ⟨lines⟩ := d
  exact congrArg Document.mk hsame

end Document

end NodeHeader
