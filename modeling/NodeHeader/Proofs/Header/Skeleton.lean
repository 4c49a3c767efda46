/-
  The comment of a header and its directives.

  The comment at the top ends where it is meant to. The end of a comment does not stand in any
  of the texts that it shows, and none of them can be part of one, since a blank stands before
  each of them and a line feed after it (`holdsCommentEnd_append_cons`). So the first end of a
  comment in a header is that on the last line of its comment.

  A line is a directive if it starts with `#`. Of all lines of a header only those of the guard
  and of the included headers are (`Header.filter_isDirective_lines`).

  Both are said of a whole header by `Table.skeleton_header`.
-/
import NodeHeader.Proofs.Header.DeclaredNames
import NodeHeader.Proofs.Header.Document
import NodeHeader.Proofs.Header.Guard
import NodeHeader.Proofs.Header.Options

namespace NodeHeader

open NodeHeader.Cpp (Member Struct)

/-! ### Ends of comments -/

theorem holdsCommentEnd_iff {cs : List Char} :
    holdsCommentEnd cs = true ↔ ['*', '/'] <:+: cs := by
  fun_induction holdsCommentEnd cs with
  | case1 rest => exact iff_of_true rfl ⟨[], rest, rfl⟩
  | case2 c rest hne ih =>
    have hprefix : ¬ ['*', '/'] <+: c :: rest := by
      rintro ⟨after, heq⟩
      obtain ⟨rfl, hrest⟩ := List.cons.inj heq
      exact hne after rfl hrest.symm
    rw [ih, List.infix_cons_iff, or_iff_right hprefix]
  | case3 => simp

/-- A character that is in no end of a comment keeps what stands before it apart from what
stands after it. -/
theorem holdsCommentEnd_append_cons {c : Char} (hc : c ≠ '*' ∧ c ≠ '/') (cs ds : List Char) :
    holdsCommentEnd (cs ++ c :: ds) = (holdsCommentEnd cs || holdsCommentEnd ds) := by
  have hcons : holdsCommentEnd (c :: ds) = holdsCommentEnd ds := by
    rw [holdsCommentEnd]
    rintro rest rfl
    exact absurd rfl hc.1
  fun_induction holdsCommentEnd cs with
  | case1 rest => rfl
  | case2 b rest hne ih =>
    rw [List.cons_append, ← ih, holdsCommentEnd]
    rintro after rfl heq
    cases rest with
    | nil => exact hc.2 (List.cons.inj heq).1
    | cons d others =>
      obtain ⟨rfl, -⟩ := List.cons.inj heq
      exact hne others rfl rfl
  | case3 => rw [List.nil_append, hcons, Bool.false_or]

/-- Lines without the end of a comment have none together. -/
theorem holdsCommentEnd_lines {lines : List String}
    (h : ∀ line ∈ lines, holdsCommentEnd line.toList = false) (cs : List Char) :
    holdsCommentEnd ((lines.flatMap fun line => line.toList ++ ['\n']) ++ cs) =
      holdsCommentEnd cs := by
  induction lines with
  | nil => rfl
  | cons line rest ih =>
    have hrest := ih fun l hl => h l (List.mem_cons_of_mem line hl)
    rw [List.flatMap_cons, List.append_assoc, List.append_assoc, List.singleton_append,
      holdsCommentEnd_append_cons (by decide), h line List.mem_cons_self, Bool.false_or, hrest]

/-- An end of a comment after which none stands earlier is the first one. -/
theorem le_of_prefix_drop {before after : List Char}
    (h : holdsCommentEnd (before ++ ['*']) = false) {k : Nat}
    (hk : ['*', '/'] <+: (before ++ ['*', '/'] ++ after).drop k) : before.length ≤ k := by
  by_contra hlt
  have hdrop : (before ++ ['*', '/'] ++ after).drop k =
      (before ++ ['*']).drop k ++ '/' :: after := by
    rw [← List.drop_append_of_le_length (by simp; omega)]
    simp
  have hshort : ['*', '/'] <+: (before ++ ['*']).drop k := by
    rw [hdrop] at hk
    refine List.prefix_of_prefix_length_le hk (List.prefix_append _ _) ?_
    simp
    omega
  have hholds : holdsCommentEnd (before ++ ['*']) = true :=
    holdsCommentEnd_iff.2 (hshort.isInfix.trans (List.drop_suffix k _).isInfix)
  rw [h] at hholds
  cases hholds

/-! ### The comment -/

/-- The text of the comment up to the end that closes it. -/
def Metadata.openComment (m : Metadata) : List Char :=
  (m.comment.dropLast.flatMap fun line => line.toList ++ ['\n']) ++ [' ']

theorem Metadata.openComment_append (m : Metadata) :
    m.openComment ++ ['*', '/'] = ("\n".intercalate m.comment).toList := by
  simp [openComment, comment]

theorem Metadata.infix_openComment {m : Metadata} {text : String} (h : text ∈ m.texts) :
    text.toList <:+: m.openComment := by
  -- each text is the end of one of the lines
  have hline : ∃ start, start ++ text ∈ m.comment.dropLast := by
    simp only [texts, List.mem_cons, List.not_mem_nil, or_false] at h
    rcases h with rfl | rfl | rfl | rfl | rfl
    · exact ⟨" * ", by simp [comment]⟩
    · exact ⟨" * ", by simp [comment]⟩
    · exact ⟨" * FILE: ", by simp [comment]⟩
    · exact ⟨" * DESCRIPTION: ", by simp [comment]⟩
    · exact ⟨" * SINCE: ", by simp [comment]⟩
  obtain ⟨start, hmem⟩ := hline
  obtain ⟨front, back, hsplit⟩ := List.append_of_mem hmem
  rw [openComment, hsplit]
  simp only [List.flatMap_append, List.flatMap_cons, String.toList_append, List.append_assoc]
  exact (List.prefix_append _ _).isInfix.trans
    ((List.suffix_append _ _).trans (List.suffix_append _ _)).isInfix

/-- No end of a comment stands before the one that is meant. -/
theorem Metadata.holdsCommentEnd_openComment {m : Metadata}
    (h : ∀ text ∈ m.texts, fitsCommentLine text = true) :
    holdsCommentEnd (m.openComment ++ ['*']) = false := by
  have hend (text : String) (htext : text ∈ m.texts) : holdsCommentEnd text.toList = false := by
    have hfits := h text htext
    simp only [fitsCommentLine, Bool.and_eq_true, Bool.not_eq_true'] at hfits
    exact hfits.2
  -- a blank stands between the start of a line and its text
  have hline (start : String) (hstart : holdsCommentEnd start.toList = false) (text : String)
      (htext : text ∈ m.texts) : holdsCommentEnd (start ++ " " ++ text).toList = false := by
    have hlist : (start ++ " " ++ text).toList = start.toList ++ ' ' :: text.toList := by simp
    rw [hlist, holdsCommentEnd_append_cons (by decide), hstart, hend text htext]
    rfl
  have hlines : ∀ line ∈ m.comment.dropLast, holdsCommentEnd line.toList = false := by
    have htitle := hline " *" (by decide) m.title (by simp [texts])
    have hcopyright := hline " *" (by decide) m.copyright (by simp [texts])
    have hfile := hline " * FILE:" (by decide) m.fileName (by simp [texts])
    have hdescription := hline " * DESCRIPTION:" (by decide) m.description (by simp [texts])
    have hversion := hline " * SINCE:" (by decide) m.version (by simp [texts])
    simp only [comment, List.dropLast, List.forall_mem_cons]
    exact ⟨by decide, htitle, hcopyright, by decide, hfile, by decide, hdescription, by decide,
      hversion, by decide, by simp⟩
  rw [openComment, List.append_assoc, holdsCommentEnd_lines hlines]
  rfl

/-! ### Directives -/

/-- Whether a line is for the preprocessor. -/
def isDirective (line : String) : Bool :=
  line.toList.head? = some '#'

namespace Header

theorem isDirective_member (m : Member) : ∀ line ∈ m.lines, isDirective line = false :=
  fun line hline => by simp [isDirective, Member.head?_of_mem_lines line hline]

theorem isDirective_struct (c : Struct) : ∀ line ∈ c.lines, isDirective line = false := by
  refine Struct.forall_mem_lines ?_ (by simp [isDirective]) ?_
    (fun m _ => isDirective_member m) (by decide)
  · unfold Struct.comment
    split <;> simp [isDirective]
  · unfold Struct.heading
    split <;> simp [isDirective]

theorem isDirective_structs (cs : List Struct) :
    ∀ line ∈ cs.flatMap fun c => c.lines ++ [""], isDirective line = false :=
  forall_mem_flatMap_lines (by decide) fun c _ => isDirective_struct c

theorem isDirective_namespaceOpening (namespaceName : String) :
    ∀ line ∈ namespaceOpening namespaceName, isDirective line = false := by
  unfold namespaceOpening
  split <;> simp [isDirective]

theorem isDirective_namespaceClosing (namespaceName : String) :
    ∀ line ∈ namespaceClosing namespaceName, isDirective line = false := by
  unfold namespaceClosing
  split <;> simp [isDirective]

/-- The announcements of the nodes, if there are any. -/
theorem isDirective_announcements (v : Option Visitor) (nodes : List Node) :
    ∀ line ∈ v.elim [] fun _ => forwardDeclarations nodes, isDirective line = false := by
  cases v with
  | none => simp
  | some v => simp [forwardDeclarations, Struct.forward, isDirective]

theorem filter_isDirective_eq_nil {lines : List String}
    (h : ∀ line ∈ lines, isDirective line = false) : lines.filter isDirective = [] :=
  List.filter_eq_nil_iff.2 fun line hline => by simp [h line hline]

theorem filter_isDirective_spaced (paragraph : List String) :
    (spaced paragraph).filter isDirective = paragraph.filter isDirective := by
  unfold spaced
  split
  · next hempty => rw [List.isEmpty_iff.1 hempty]
  · rw [List.filter_append, List.filter_cons_of_neg (by decide), List.filter_nil,
      List.append_nil]

/-- The directives before the structs are those of the guard and of the included headers. -/
theorem filter_isDirective_opening (s : Settings) (nodes : List Node) :
    (((opening s nodes).take 4).flatMap spaced).filter isDirective =
      Guard.opening s.guard ++ includeLines s.includes := by
  have hcomment : s.metadata.comment.filter isDirective = [] :=
    filter_isDirective_eq_nil (by simp [Metadata.comment, isDirective])
  have hguard : (Guard.opening s.guard).filter isDirective = Guard.opening s.guard :=
    List.filter_eq_self.2 (by simp [Guard.opening, isDirective])
  have hincludes : (includeLines s.includes).filter isDirective = includeLines s.includes :=
    List.filter_eq_self.2 (by simp [includeLines, isDirective])
  have hnamespace : (namespaceOpening s.namespaceName).filter isDirective = [] :=
    filter_isDirective_eq_nil (isDirective_namespaceOpening s.namespaceName)
  have hforward : (s.visitor.elim [] fun _ => forwardDeclarations nodes).filter isDirective =
      [] := filter_isDirective_eq_nil (isDirective_announcements s.visitor nodes)
  simp only [opening, List.take_succ_cons, List.take_zero, List.flatMap_cons, List.flatMap_nil,
    List.filter_append, filter_isDirective_spaced, hcomment, hguard, hincludes, hnamespace,
    hforward, List.nil_append, List.append_nil]

/-- The directives of a header are those of its guard and of the included headers. -/
theorem filter_isDirective_lines (s : Settings) (nodes : List Node) :
    (lines s nodes).filter isDirective =
      Guard.opening s.guard ++ includeLines s.includes ++ [Guard.closing s.guard] := by
  have hstructs : ((structs s nodes).flatMap fun c => c.lines ++ [""]).filter isDirective = [] :=
    filter_isDirective_eq_nil (isDirective_structs _)
  have hclosing : (closing s).filter isDirective = [Guard.closing s.guard] := by
    rw [closing, List.filter_append,
      filter_isDirective_eq_nil (isDirective_namespaceClosing s.namespaceName), List.nil_append]
    exact List.filter_eq_self.2 (by simp [Guard.closing, isDirective])
  rw [lines_eq_structs, List.filter_append, List.filter_append, filter_isDirective_opening,
    hstructs, hclosing, List.append_nil]

end Header

namespace Table

/-- A header starts with its comment, whose texts all stand before the first end of a comment,
which is the end of line 11. Its directives are the two that open the guard, directly after the
comment, one for each included header in order, and the one that closes the guard, which is the
last line. -/
theorem skeleton_header (t : Table) (o : Options) (d : Document)
    (h : (t.header o).result = .ok d) :
    (['/', '*'] <+: d.text.toList ∧ ∃ before after,
      d.text.toList = before ++ ['*', '/'] ++ after ∧
      before ++ ['*', '/'] = ("\n".intercalate (d.lines.take 11)).toList ∧
      (∀ k, ['*', '/'] <+: d.text.toList.drop k → before.length ≤ k) ∧
      ∀ text ∈ o.metadata.texts, text.toList <:+: before) ∧
    (d.lines.drop 11).take 2 = ["#ifndef " ++ o.guard, "#define " ++ o.guard] ∧
    d.lines.filter isDirective = ["#ifndef " ++ o.guard, "#define " ++ o.guard] ++
      o.includes.map ("#include " ++ ·) ++ ["#endif // " ++ o.guard] ∧
    d.lines.getLast? = some ("#endif // " ++ o.guard) := by
  have hlines : d.lines = Header.lines o.toSettings t.toList := (header_eq_ok_iff.1 h).2
  obtain ⟨rest, hrest⟩ := Header.exists_lines_eq o.toSettings t.toList
  have hfirst : d.lines = o.metadata.comment ++ (Guard.opening o.guard ++ rest) := by
    rw [hlines, hrest, List.append_assoc]
  have htake : d.lines.take 11 = o.metadata.comment := by
    rw [hfirst]
    exact List.take_left' rfl
  have htext : ∃ after, d.text.toList = o.metadata.openComment ++ ['*', '/'] ++ after := by
    refine ⟨'\n' :: ((Guard.opening o.guard ++ rest).flatMap fun line => line.toList ++ ['\n']), ?_⟩
    rw [Document.toList_text, hfirst]
    simp [Metadata.openComment, Metadata.comment]
  have hno : holdsCommentEnd (o.metadata.openComment ++ ['*']) = false :=
    Metadata.holdsCommentEnd_openComment fun _ htext => o.fitsCommentLine_of_mem htext
  obtain ⟨after, hafter⟩ := htext
  refine ⟨⟨?_, o.metadata.openComment, after, hafter, ?_, fun k hk => ?_, fun text htext => ?_⟩,
    ?_, ?_, ?_⟩
  · rw [hafter]
    simp [Metadata.openComment, Metadata.comment]
  · rw [htake, Metadata.openComment_append]
  · rw [hafter] at hk
    exact le_of_prefix_drop hno hk
  · exact Metadata.infix_openComment htext
  · rw [hfirst]
    rfl
  · rw [hlines]
    exact Header.filter_isDirective_lines o.toSettings t.toList
  · rw [hlines, Header.lines, Header.closing, ← List.append_assoc, List.getLast?_concat]
    rfl

/-- Texts that begin with a slash or end with a star make no end of a comment with what stands
around them, and a text that looks like a directive makes none. -/
theorem skeleton_header_stars : ∃ (t : Table) (o : Options) (d : Document),
    (ofList ["A: int x"]).result = .ok t ∧ (t.header o).result = .ok d ∧
      o.metadata = { title := "/", copyright := "*", fileName := "#a*", version := "/*" } ∧
      (∃ before after, d.text.toList = before ++ ['*', '/'] ++ after ∧
        (∀ k, ['*', '/'] <+: d.text.toList.drop k → before.length ≤ k) ∧
        "/*".toList <:+: before) ∧
      d.lines.filter isDirective = ["#ifndef DARGON_A_", "#define DARGON_A_", "#include \"#\"",
        "#include <string>", "#endif // DARGON_A_"] := by
  let n : Node :=
    { name := "A"
      fields := [⟨"int", "x", by decide, by decide⟩]
      isIdentifier_name := by decide
      fields_ne_nil := by decide
      nodup_fields := by decide }
  let o : Options :=
    { includes := ["\"#\"", "<string>"]
      metadata := { title := "/", copyright := "*", fileName := "#a*", version := "/*" }
      holds_checks := by decide }
  have hreads : Reads (listEntries ["A: int x"]) [n] := by rfl
  obtain ⟨t, ht, -, h⟩ := exists_header_of_reads hreads (by decide) o (by decide)
  obtain ⟨⟨-, before, after, htext, -, hfirst, hmem⟩, -, hdirectives, -⟩ := skeleton_header t o _ h
  exact ⟨t, o, _, ht, h, rfl, ⟨before, after, htext, hfirst, hmem "/*" (by decide)⟩,
    hdirectives.trans (by decide)⟩

end Table

end NodeHeader
