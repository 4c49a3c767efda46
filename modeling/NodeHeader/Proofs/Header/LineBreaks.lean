/-
  No line of a header holds a line break.

  What the lines are written from comes from many places: names and types, a namespace, included
  headers, the texts of the comment, and the type that visitors return. Each of them was judged
  in its own way, and each judgement keeps line breaks out: the names and types as they are made
  of type characters (`oneLine_of_isIdentifier`, `oneLine_of_isTypeName`), the included headers
  as a line break is a blank (`oneLine_of_isInclude`), and the comment's texts as they fit its
  lines (`oneLine_of_fitsCommentLine`).

  A struct has no line break if the texts that it is written from have none
  (`Cpp.Struct.oneLine_lines`). So every line of a header is one line
  (`Header.oneLine_lines`), and the text of a header says what its lines are
  (`Table.lines_text_header`).
-/
import NodeHeader.Proofs.Header.Document
import NodeHeader.Proofs.Header.Guard
import NodeHeader.Proofs.Header.Texts

namespace NodeHeader

open NodeHeader.Cpp (Member Struct)

/-! ### Judged texts -/

theorem oneLine_of_isTypeName {typeName : String} (h : Cpp.isTypeName typeName = true) :
    OneLine typeName :=
  ⟨Cpp.not_mem_of_isTypeName h (by decide), Cpp.not_mem_of_isTypeName h (by decide)⟩

theorem oneLine_of_isIdentifier {name : String} (h : Cpp.isIdentifier name = true) :
    OneLine name :=
  ⟨Cpp.not_mem_of_isIdentifier h (by decide), Cpp.not_mem_of_isIdentifier h (by decide)⟩

/-- An included header that is accepted has no blanks in it, so no line breaks. -/
theorem oneLine_of_isInclude {header : String} (h : isInclude header = true) :
    OneLine header := by
  simp only [isInclude, Bool.and_eq_true, Bool.not_eq_true', List.any_eq_false] at h
  have hblank (c : Char) (hc : Text.isBlank c = true) : c ∉ header.toList :=
    fun hmem => h.2 c hmem hc
  exact ⟨hblank '\n' (by decide), hblank '\r' (by decide)⟩

theorem oneLine_of_fitsCommentLine {text : String} (h : fitsCommentLine text = true) :
    OneLine text := by
  simp only [fitsCommentLine, Bool.and_eq_true, Bool.not_eq_true', List.contains_eq_mem,
    decide_eq_false_iff_not] at h
  exact ⟨h.1.1, h.1.2⟩

theorem oneLine_of_isMacroName {name : String} (h : Guard.IsMacroName name) : OneLine name :=
  oneLine_of_fitsCommentLine (fitsCommentLine_of_isMacroName h)

/-! ### Structs -/

/-- Texts put together break a line only if one of them does. -/
theorem inherited_oneLine : Inherited OneLine where
  empty := by decide
  append ha hb := oneLine_append.2 ⟨ha, hb⟩

namespace Cpp

theorem Member.oneLine_commaSeparated {texts : List String} (h : ∀ text ∈ texts, OneLine text) :
    OneLine (commaSeparated texts) :=
  inherited_oneLine.intercalate (by decide) h

theorem Member.oneLine_lines {m : Member} (h : ∀ text ∈ m.texts, OneLine text) :
    ∀ line ∈ m.lines, OneLine line := by
  cases m with
  | field typeName name =>
    simp only [texts, List.forall_mem_cons] at h
    simp +decide [lines, h.1, h.2.1]
  | constructor struct parameters =>
    simp only [texts, List.forall_mem_cons] at h
    obtain ⟨hstruct, hparameters⟩ := h
    have htype : ∀ p ∈ parameters, OneLine p.typeName := fun p hp =>
      hparameters _ (List.mem_flatMap.2 ⟨p, hp, by simp⟩)
    have hname : ∀ p ∈ parameters, OneLine p.name := fun p hp =>
      hparameters _ (List.mem_flatMap.2 ⟨p, hp, by simp⟩)
    have hlist : OneLine (commaSeparated (parameters.map Parameter.text)) :=
      oneLine_commaSeparated (by simpa +decide [Parameter.text] using
        fun p hp => ⟨htype p hp, hname p hp⟩)
    have hinit :
        OneLine (commaSeparated (parameters.map fun p => p.name ++ "(" ++ p.name ++ ")")) :=
      oneLine_commaSeparated (by simpa +decide using hname)
    simp +decide [lines, hstruct, hlist, hinit]
  | destructor struct =>
    simp only [texts, List.forall_mem_cons] at h
    simp +decide [lines, h.1]
  | pureMethod returnType name p =>
    simp only [texts, List.forall_mem_cons] at h
    obtain ⟨hreturn, hname, htype, hparameter, -⟩ := h
    simp +decide [lines, Parameter.text, hreturn, hname, htype, hparameter]
  | override returnType name p statement =>
    simp only [texts, List.forall_mem_cons] at h
    obtain ⟨hreturn, hname, htype, hparameter, hstatement, -⟩ := h
    simp +decide [lines, Parameter.text, hreturn, hname, htype, hparameter, hstatement]

/-- If the texts of a struct break no line, neither do its lines. -/
theorem Struct.oneLine_lines {s : Struct} (h : ∀ text ∈ s.texts, OneLine text) :
    ∀ line ∈ s.lines, OneLine line := by
  simp only [texts, List.forall_mem_append, List.forall_mem_cons, Option.mem_toList] at h
  obtain ⟨⟨hbrief, hname, hparent⟩, hmembers⟩ := h
  refine forall_mem_lines ?_ (by simp +decide [hname]) ?_ ?_ (by decide)
  · unfold comment
    cases hb : s.brief with
    | none => simp
    | some brief => simp +decide [hbrief brief hb]
  · unfold heading
    cases hp : s.parent with
    | none => simp +decide [hname]
    | some parent => simp +decide [hname, hparent parent hp]
  · intro m hm
    exact Member.oneLine_lines fun text htext => hmembers text (List.mem_flatMap.2 ⟨m, hm, htext⟩)

end Cpp

/-! ### The lines of a header -/

namespace Header

theorem common_oneLine : Common OneLine where
  toInherited := inherited_oneLine
  fixed := by decide
  identifier _ := oneLine_of_isIdentifier
  type _ := oneLine_of_isTypeName

theorem oneLine_comment {m : Metadata}
    (h : ∀ text ∈ m.texts, OneLine text) : ∀ line ∈ m.comment, OneLine line := by
  simp only [Metadata.texts, List.forall_mem_cons] at h
  obtain ⟨htitle, hcopyright, hfile, hdescription, hversion, -⟩ := h
  simp +decide [Metadata.comment, htitle, hcopyright, hfile, hdescription, hversion]

/-- No line of a header holds a line break, whatever the options are. -/
theorem oneLine_lines (o : Options) (nodes : List Node) :
    ∀ line ∈ lines o.toSettings nodes, OneLine line := by
  have hnamespace : OneLine o.namespaceName := by
    rcases o.isIdentifier_namespaceName with h | h
    · rw [h]
      decide
    · exact oneLine_of_isIdentifier h
  have hguard : OneLine o.guard := oneLine_of_isMacroName o.isMacroName_guard
  refine forall_mem_lines (by decide) ?_ ?_ ?_
  · -- the comment with the guard, the includes, the namespace, the announcements
    simp only [opening, List.take_succ_cons, List.take_zero, List.forall_mem_cons]
    refine ⟨?_, ?_, ?_, ?_, by simp⟩
    · refine List.forall_mem_append.2 ⟨oneLine_comment fun text htext => ?_, ?_⟩
      · exact oneLine_of_fitsCommentLine (o.fitsCommentLine_of_mem htext)
      · simp +decide [Guard.opening, hguard]
    · intro line hline
      obtain ⟨header, hheader, rfl⟩ := List.mem_map.1 hline
      simp +decide [oneLine_of_isInclude (o.isInclude_of_mem hheader)]
    · unfold namespaceOpening
      split <;> simp +decide [hnamespace]
    · cases o.visitor with
      | none => simp
      | some v =>
        intro line hline
        obtain ⟨n, -, rfl⟩ := List.mem_map.1 hline
        simp +decide [Struct.forward, oneLine_of_isIdentifier n.isIdentifier_name]
  · exact fun c hc => Struct.oneLine_lines (forall_mem_texts_structs common_oneLine o nodes c hc)
  · unfold closing namespaceClosing Guard.closing
    split <;> simp +decide [hnamespace, hguard]

theorem lines_ne_nil (s : Settings) (nodes : List Node) : lines s nodes ≠ [] := by
  simp [lines, closing]

end Header

/-! ### The text of a header -/

/-- No line of a header holds a line break. So the lines of its text are its lines, the text has
one line feed for each of them and ends with one, its bytes are those of the lines and of their
ends, and no other header has the same text. -/
theorem Table.lines_text_header (t : Table) (o : Options) (d : Document)
    (h : (t.header o).result = .ok d) :
    (∀ line ∈ d.lines, '\n' ∉ line.toList ∧ '\r' ∉ line.toList) ∧
    (Text.lines d.text.toList).map String.ofList = d.lines ∧
    d.text.toList.count '\n' = d.length ∧
    d.text.toList.getLast? = some '\n' ∧
    d.bytes.length = (d.lines.map fun line => (Text.encode line).length + 1).sum ∧
    ∀ (t' : Table) (o' : Options) (d' : Document), (t'.header o').result = .ok d' →
      d'.text = d.text → d' = d := by
  have hone (t : Table) (o : Options) (d : Document) (h : (t.header o).result = .ok d) :
      ∀ line ∈ d.lines, OneLine line := by
    rw [(header_eq_ok_iff.1 h).2]
    exact Header.oneLine_lines o t.toList
  have hd : ∀ line ∈ d.lines, OneLine line := hone t o d h
  refine ⟨fun line hline => oneLine_iff.1 (hd line hline), ?_, Document.count_feed_text hd, ?_, ?_,
    fun t' o' d' h' heq => Document.eq_of_text_eq (hone t' o' d' h') hd heq⟩
  · rw [Document.lines_text hd, List.map_map]
    exact (List.map_congr_left fun line _ => String.ofList_toList).trans (List.map_id _)
  · refine Document.getLast?_text ?_
    rw [(header_eq_ok_iff.1 h).2]
    exact Header.lines_ne_nil o.toSettings t.toList
  · simp only [Document.bytes, Text.length_encode, Document.utf8ByteSize_text]

/-- A form feed, a next line, a line separator and a paragraph separator in a title are no line
breaks. -/
theorem Table.lines_text_header_separators : ∃ (t : Table) (o : Options) (d : Document),
    (ofList ["A: int x"]).result = .ok t ∧ (t.header o).result = .ok d ∧
      " * a\x0cb\u0085c\u2028d\u2029" ∈ d.lines ∧
      (Text.lines d.text.toList).map String.ofList = d.lines ∧
      d.text.toList.count '\n' = 32 := by
  let n : Node :=
    { name := "A"
      fields := [⟨"int", "x", by decide, by decide⟩]
      isIdentifier_name := by decide
      fields_ne_nil := by decide
      nodup_fields := by decide }
  let o : Options :=
    { metadata := { title := "a\x0cb\u0085c\u2028d\u2029" }
      holds_checks := by decide }
  have hreads : Reads (listEntries ["A: int x"]) [n] := by rfl
  obtain ⟨t, ht, -, h⟩ := exists_header_of_reads hreads (by decide) o (by decide)
  obtain ⟨-, hlines, hcount, -⟩ := lines_text_header t o _ h
  exact ⟨t, o, _, ht, h, by decide, hlines, hcount⟩

end NodeHeader
