/-
  Reading back what a table is written as.

  A node has an entry, `Node.text`, and reading the entry gives the node again
  (`Entry.parse_text`). Definitions are written with these entries, one on a line and in order;
  `DefinitionsForm` says which texts are such definitions, with whatever blank lines and
  comments there are between the entries, and with either end of a line.

  A table is read from any of its written forms, and from the list of its entries: of the
  lines of a text only those of the entries are left once blank lines and comments are passed
  over (`DefinitionsForm.filter_lines`), and the lines on which entries stand do not matter to
  the nodes they spell (`reads_of_map_text`).
-/
import NodeHeader.Proofs.Definition.Grammar
import NodeHeader.Proofs.Definition.Reading
import NodeHeader.Proofs.Text.Lines

namespace NodeHeader

open NodeHeader.Text (dropReturn isAllBlank isBlank lineEnds lines trim)

/-! ### The entry of a node -/

theorem Field.fieldForm_text (f : Field) : FieldForm f.pair (' ' :: f.text.toList) :=
  ⟨[' '], [' '], [], by simp [Field.text, Field.pair], by decide, by decide, by decide, rfl⟩

theorem fieldsForm_intercalate {fields : List Field} (hne : fields ≠ []) :
    FieldsForm (fields.map Field.pair)
      (' ' :: [',', ' '].intercalate (fields.map fun f => f.text.toList)) := by
  induction fields with
  | nil => exact absurd rfl hne
  | cons f rest ih =>
    cases rest with
    | nil => simpa using FieldsForm.single f.fieldForm_text
    | cons next others =>
      have hrest := ih (by simp)
      simp only [List.map_cons, List.intercalate_cons_cons] at hrest ⊢
      simpa using FieldsForm.cons f.fieldForm_text hrest

theorem not_mem_intercalate {c : Char} {sep : List Char} {pieces : List (List Char)}
    (hsep : c ∉ sep) (h : ∀ piece ∈ pieces, c ∉ piece) : c ∉ sep.intercalate pieces := by
  induction pieces with
  | nil => simp
  | cons piece rest ih =>
    have hpiece : c ∉ piece := h piece List.mem_cons_self
    cases rest with
    | nil => simpa using hpiece
    | cons next others =>
      have hrest := ih fun p hp => h p (List.mem_cons_of_mem piece hp)
      rw [List.intercalate_cons_cons]
      simp only [List.mem_append, not_or]
      exact ⟨⟨hpiece, hsep⟩, hrest⟩

namespace Node

theorem toList_text (n : Node) : n.text.toList = n.name.toList ++ ':' ::
    ' ' :: [',', ' '].intercalate (n.fields.map fun f => f.text.toList) := by
  simp [text, String.toList_intercalate, Function.comp_def]

theorem entryForm_text (n : Node) : EntryForm n.name n.pairs n.text.toList :=
  ⟨[], [], _, by rw [n.toList_text]; simp, rfl, rfl, fieldsForm_intercalate n.fields_ne_nil⟩

/-- The entry of a node is made of type characters, commas and spaces. -/
theorem not_mem_text (n : Node) {c : Char} (hc : Cpp.isTypeChar c = false) (hcomma : c ≠ ',')
    (hspace : c ≠ ' ') : c ∉ n.text.toList := by
  -- name characters are among the type characters, and so is the colon
  have hname : ∀ {name : String}, Cpp.isIdentifier name = true → c ∉ name.toList := by
    intro name h hmem
    rw [Cpp.isTypeChar_of_isIdentifierChar (Cpp.isIdentifierChar_of_mem h c hmem)] at hc
    cases hc
  have hcolon : c ≠ ':' := by
    rintro rfl
    exact absurd hc (by decide)
  have hfields : ∀ piece ∈ n.fields.map fun f => f.text.toList, c ∉ piece := by
    intro piece hpiece
    obtain ⟨f, -, rfl⟩ := List.mem_map.1 hpiece
    have htype := Cpp.not_mem_of_isTypeName f.isTypeName_typeName hc
    simp [Field.text, htype, hspace, hname f.isIdentifier_name]
  have hbody : c ∉ [',', ' '].intercalate (n.fields.map fun f => f.text.toList) :=
    not_mem_intercalate (by simp [hcomma, hspace]) hfields
  rw [n.toList_text]
  simp only [List.mem_append, List.mem_cons, not_or]
  exact ⟨hname n.isIdentifier_name, hcolon, hspace, hbody⟩

end Node

theorem Entry.parse_text {e : Entry} {n : Node} (h : e.text = n.text) : e.parse = .ok n :=
  Entry.parse_of_entryForm (h ▸ n.entryForm_text)

/-- Entries of which each has the text of a node spell these nodes, on whatever lines. -/
theorem reads_of_map_text {entries : List Entry} {nodes : List Node}
    (h : entries.map Entry.text = nodes.map Node.text) : Reads entries nodes := by
  induction nodes generalizing entries with
  | nil =>
    rw [List.map_nil, List.map_eq_nil_iff] at h
    rw [h]
    rfl
  | cons n rest ih =>
    obtain ⟨e, es, rfl, he, hes⟩ := List.map_eq_cons_iff.1 h
    have hrest : es.map Entry.parse = rest.map .ok := ih hes
    rw [Reads, List.map_cons, List.map_cons, Entry.parse_text he, hrest]

/-! ### Definitions as texts -/

/-- What a line of definitions may hold: the entry of a node, or only blanks, or blanks and a
comment. -/
inductive LineForm : Option Node → List Char → Prop
  | blank {w : List Char} (hw : isAllBlank w = true) (hfeed : '\n' ∉ w) : LineForm none w
  | comment {w text : List Char} (hw : isAllBlank w = true) (hfeed : '\n' ∉ w)
    (htext : '\n' ∉ text) : LineForm none (w ++ commentMark :: text)
  | entry (n : Node) : LineForm (some n) n.text.toList

/-- The written forms of definitions: lines, each with either end of a line after it, and a
last line without one, which may be empty. -/
inductive DefinitionsForm : List Node → List Char → Prop
  | last {node : Option Node} {line : List Char} (h : LineForm node line) :
    DefinitionsForm node.toList line
  | cons {node : Option Node} {line ending : List Char} {nodes : List Node} {rest : List Char}
    (h : LineForm node line) (hend : ending ∈ lineEnds) (hrest : DefinitionsForm nodes rest) :
    DefinitionsForm (node.toList ++ nodes) (line ++ ending ++ rest)

theorem isPassedOver_dropReturn (line : List Char) :
    isPassedOver (dropReturn line) = isPassedOver line := by
  rw [isPassedOver, Text.trim_dropReturn, ← isPassedOver]

theorem isPassedOver_of_isAllBlank {w : List Char} (hw : isAllBlank w = true) :
    isPassedOver w = true := by
  rw [isPassedOver, Text.trim_eq_nil_iff.2 hw]

/-- Whether a line is passed over is said by its first character that is no blank. -/
theorem isPassedOver_blanks_append {w : List Char} (hw : isAllBlank w = true) {c : Char}
    (hc : isBlank c = false) (cs : List Char) :
    isPassedOver (w ++ c :: cs) = decide (c = commentMark) := by
  obtain ⟨ds, htrim⟩ := Text.exists_trim_cons hc cs
  rw [isPassedOver, Text.trim_blanks_append hw, htrim]

theorem Node.isPassedOver_text (n : Node) : isPassedOver n.text.toList = false := by
  obtain ⟨c, cs, hname⟩ := List.exists_cons_of_ne_nil
    (Cpp.toList_ne_nil_of_isIdentifier n.isIdentifier_name)
  have hmem : c ∈ n.name.toList := hname ▸ List.mem_cons_self
  have hblank : isBlank c = false :=
    (Cpp.isWord_of_isIdentifier n.isIdentifier_name).not_blank c hmem
  have hmark : c ≠ commentMark := by
    rintro rfl
    exact Cpp.not_mem_of_isIdentifier n.isIdentifier_name (by decide) hmem
  rw [n.toList_text, hname, ← List.nil_append (c :: cs), List.append_assoc, List.cons_append,
    isPassedOver_blanks_append rfl hblank, decide_eq_false hmark]

namespace LineForm

variable {node : Option Node} {line : List Char}

theorem feed_not_mem (h : LineForm node line) : '\n' ∉ line := by
  cases h with
  | blank _ hfeed => exact hfeed
  | comment _ hfeed htext => simp [hfeed, htext, commentMark]
  | entry n => exact n.not_mem_text (by decide) (by decide) (by decide)

/-- Of a line only the entry of a node is left, with the carriage return at its end or
without it. -/
theorem filter_singleton (h : LineForm node line) {first : List Char}
    (hfirst : first = line ∨ first = dropReturn line) :
    [first].filter (!isPassedOver ·) = node.toList.map fun n => n.text.toList := by
  have hpass : isPassedOver first = isPassedOver line := by
    rcases hfirst with rfl | rfl
    · rfl
    · exact isPassedOver_dropReturn line
  cases h with
  | blank hw _ =>
    rw [List.filter_cons_of_neg (by simp [hpass, isPassedOver_of_isAllBlank hw])]
    rfl
  | @comment w text hw _ _ =>
    have hmark : isPassedOver (w ++ commentMark :: text) = true := by
      rw [isPassedOver_blanks_append hw (by decide), decide_eq_true rfl]
    rw [List.filter_cons_of_neg (by simp [hpass, hmark])]
    rfl
  | entry n =>
    have hreturn : dropReturn n.text.toList = n.text.toList :=
      Text.dropReturn_of_not_mem (n.not_mem_text (by decide) (by decide) (by decide))
    rw [hreturn, or_self] at hfirst
    rw [List.filter_cons_of_pos (by simp [hpass, n.isPassedOver_text]), hfirst]
    rfl

end LineForm

/-- The lines of definitions that are not passed over are the entries of the nodes. -/
theorem DefinitionsForm.filter_lines {nodes : List Node} {cs : List Char}
    (h : DefinitionsForm nodes cs) :
    (lines cs).filter (!isPassedOver ·) = nodes.map fun n => n.text.toList := by
  induction h with
  | @last node line h =>
    have hline : (lines line).filter (!isPassedOver ·) = [line].filter (!isPassedOver ·) := by
      rw [Text.lines_of_not_mem h.feed_not_mem]
      -- an empty last line is no line, but would be passed over as well
      cases line <;> rfl
    rw [hline, h.filter_singleton (.inl rfl)]
  | @cons node line ending nodes rest h hend _ ih =>
    obtain ⟨first, hlines, hfirst⟩ := Text.exists_lines_append_end h.feed_not_mem hend rest
    rw [hlines, ← List.singleton_append, List.filter_append, h.filter_singleton hfirst, ih,
      List.map_append]

/-! ### Reading back -/

theorem map_text_listEntries (texts : List String) :
    (listEntries texts).map Entry.text = texts := by
  rw [listEntries, List.map_map]
  exact List.zipIdx_map_fst 1 texts

theorem map_text_textEntries (text : String) : (textEntries text).map Entry.text =
    ((lines text.toList).filter (!isPassedOver ·)).map String.ofList := by
  conv =>
    rhs
    rw [← List.zipIdx_map_fst 1 (lines text.toList), List.filter_map, List.map_map]
  rw [textEntries, List.map_map]
  rfl

/-- A table is read from the list of its entries, and from every text in which these stand
one on a line and in order, with blank lines and comments anywhere, with a line feed or a
carriage return and a line feed after each line, and with or without them after the last. -/
theorem Table.ofList_ofText_text (t : Table) :
    (∃ t', (ofList (t.toList.map Node.text)).result = .ok t' ∧ t'.toList = t.toList) ∧
    ∀ text : String, DefinitionsForm t.toList text.toList →
      ∃ t', (ofText text).result = .ok t' ∧ t'.toList = t.toList := by
  constructor
  · exact ofEntries_of_reads (reads_of_map_text (map_text_listEntries _)) t.nodup_names
  · intro text h
    refine ofEntries_of_reads (reads_of_map_text ?_) t.nodup_names
    rw [map_text_textEntries, h.filter_lines, List.map_map]
    exact List.map_congr_left fun n _ => String.ofList_toList

/-- A text with a comment, an empty line, both ends of lines and none after the entry. -/
theorem Table.ofText_commented :
    ∃ t, (ofText "\t# nodes\r\n\nA: ::a::b x, T[4]* y").result = .ok t ∧
      t.toList.map (fun n => (n.name, n.pairs)) = [("A", [("::a::b", "x"), ("T[4]*", "y")])] := by
  let n : Node :=
    { name := "A"
      fields := [⟨"::a::b", "x", by decide, by decide⟩, ⟨"T[4]*", "y", by decide, by decide⟩]
      isIdentifier_name := by decide
      fields_ne_nil := by decide
      nodup_fields := by decide }
  obtain ⟨t, -, ht⟩ : ∃ t, empty.push n = .ok t ∧ t.toList = [n] :=
    exists_push_of_not_mem (by simp [names, toList_empty])
  have hcomment : LineForm none (['\t'] ++ commentMark :: " nodes".toList) :=
    .comment rfl (by decide) (by decide)
  have hempty : LineForm none [] := .blank rfl (by decide)
  have hform : DefinitionsForm t.toList "\t# nodes\r\n\nA: ::a::b x, T[4]* y".toList := by
    have htext : "\t# nodes\r\n\nA: ::a::b x, T[4]* y".toList =
        ['\t'] ++ commentMark :: " nodes".toList ++ ['\r', '\n'] ++
          ([] ++ ['\n'] ++ n.text.toList) := by
      simp [n, Node.toList_text, Field.text, commentMark]
    rw [ht, htext]
    exact .cons hcomment (by decide) (.cons hempty (by decide) (.last (.entry n)))
  obtain ⟨t', ht', htoList⟩ := (ofList_ofText_text t).2 _ hform
  exact ⟨t', ht', by rw [htoList, ht]; rfl⟩

end NodeHeader
