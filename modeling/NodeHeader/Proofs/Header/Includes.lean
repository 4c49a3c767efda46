/-
  Included headers and the names that are read from them.

  A header is included by a name in delimiters, and whoever reads the directive takes the name to
  end at the first closing delimiter (`headerName?_eq_some_iff`). The check of settings looks at
  the two ends of the text, and for blanks: it lets through whatever stands in delimiters and is
  a word (`isInclude_iff`). A closing delimiter inside this word is not looked for.

  `Settings.headerName?_includes` tells of each accepted text which name is read from its line
  and what is left over: nothing exactly if the word is free of the closing delimiter, and the
  rest of the text as source otherwise. `Table.headerName?_comment` is an accepted text whose
  rest opens a comment.
-/
import NodeHeader.Proofs.Header.ReadBack
import NodeHeader.Proofs.Header.Skeleton

namespace NodeHeader

open NodeHeader.Text (IsWord)
open NodeHeader.Header (cutAtFirst cutAtFirst_singleton_eq_some_iff)

/-! ### Reading a name -/

/-- The delimiter that closes what another one opens. -/
def closingDelimiter? : Char → Option Char
  | '<' => some '>'
  | '"' => some '"'
  | _ => none

theorem closingDelimiter?_eq_some_iff {first close : Char} :
    closingDelimiter? first = some close ↔
      first = '<' ∧ close = '>' ∨ first = '"' ∧ close = '"' := by
  unfold closingDelimiter?
  split <;> simp_all [eq_comm]

/-- The name in delimiters at the start of a text, and what follows it. The name ends at the
first closing delimiter, and something stands before that. -/
def headerName? : List Char → Option (List Char × List Char)
  | [] => none
  | first :: rest => do
    let close ← closingDelimiter? first
    let (body, after) ← cutAtFirst [close] rest
    if body.isEmpty then none else some (first :: body ++ [close], after)

/-- The name that a directive includes, and what follows it on the line. -/
def includedName? (line : String) : Option (List Char × List Char) := do
  let rest ← "#include ".toList.isPrefixOf? line.toList
  headerName? rest

theorem includedName?_append (text : String) :
    includedName? ("#include " ++ text) = headerName? text.toList := by
  rw [includedName?, Header.isPrefixOf?_append]
  rfl

/-- A name is read exactly if one stands at the start, with no closing delimiter inside. -/
theorem headerName?_eq_some_iff {cs name after : List Char} :
    headerName? cs = some (name, after) ↔ ∃ first close body, closingDelimiter? first = some close ∧
      body ≠ [] ∧ close ∉ body ∧ name = first :: body ++ [close] ∧ cs = name ++ after := by
  constructor
  · intro h
    cases cs with
    | nil => cases h
    | cons first rest =>
      simp only [headerName?, Option.bind_eq_bind, Option.bind_eq_some_iff] at h
      obtain ⟨close, hclose, ⟨body, back⟩, hcut, hname⟩ := h
      obtain ⟨rfl, hbody⟩ := cutAtFirst_singleton_eq_some_iff.1 hcut
      split at hname
      · cases hname
      · next hne =>
        obtain ⟨rfl, rfl⟩ := Prod.mk.inj (Option.some.inj hname)
        exact ⟨first, close, body, hclose, by simpa using hne, hbody, rfl, by simp⟩
  · rintro ⟨first, close, body, hclose, hne, hbody, rfl, rfl⟩
    have hcut : cutAtFirst [close] (body ++ close :: after) = some (body, after) :=
      cutAtFirst_singleton_eq_some_iff.2 ⟨rfl, hbody⟩
    simp [headerName?, hclose, hcut, hne]

theorem headerName?_of_mem {first close : Char} (hclose : closingDelimiter? first = some close)
    {before after : List Char} (h : close ∉ before) :
    headerName? (first :: before ++ close :: after) =
      if before = [] then none else some (first :: before ++ [close], after) := by
  have hcut : cutAtFirst [close] (before ++ close :: after) = some (before, after) :=
    cutAtFirst_singleton_eq_some_iff.2 ⟨rfl, h⟩
  simp [headerName?, hclose, hcut]

/-! ### The texts that are accepted -/

theorem cons_concat_inj {first first' close close' : Char} {body body' : List Char}
    (h : first :: body ++ [close] = first' :: body' ++ [close']) :
    first = first' ∧ body = body' ∧ close = close' := by
  obtain ⟨hfirst, hrest⟩ := List.cons.inj h
  obtain ⟨hbody, hclose⟩ := List.append_inj' hrest rfl
  exact ⟨hfirst, hbody, (List.cons.inj hclose).1⟩

/-- A word between an opening delimiter and the one that closes it. -/
structure InDelimiters (text : String) (first close : Char) (body : List Char) : Prop where
  closes : closingDelimiter? first = some close
  toList_eq : text.toList = first :: body ++ [close]
  isWord : IsWord body

theorem exists_eq_cons_concat {cs : List Char} {first last : Char} (hfirst : cs.head? = some first)
    (hlast : cs.getLast? = some last) (hlength : 2 < cs.length) :
    ∃ body, cs = first :: body ++ [last] ∧ body ≠ [] := by
  obtain ⟨front, rfl⟩ := List.getLast?_eq_some_iff.1 hlast
  cases front with
  | nil => simp at hlength
  | cons c body =>
    obtain rfl : c = first := by simpa using hfirst
    refine ⟨body, rfl, ?_⟩
    rintro rfl
    simp at hlength

/-- The check of included headers accepts the words in delimiters, and nothing else. -/
theorem isInclude_iff {header : String} :
    isInclude header = true ↔ ∃ first close body, InDelimiters header first close body := by
  simp only [isInclude, Bool.and_eq_true, Bool.or_eq_true, decide_eq_true_eq, Bool.not_eq_true',
    List.any_eq_false]
  constructor
  · rintro ⟨⟨hends, hlength⟩, hblank⟩
    obtain ⟨first, close, hclose, hfirst, hlast⟩ : ∃ first close,
        closingDelimiter? first = some close ∧ header.toList.head? = some first ∧
        header.toList.getLast? = some close := by
      rcases hends with ⟨hfirst, hlast⟩ | ⟨hfirst, hlast⟩
      · exact ⟨'<', '>', rfl, hfirst, hlast⟩
      · exact ⟨'"', '"', rfl, hfirst, hlast⟩
    obtain ⟨body, hbody, hne⟩ := exists_eq_cons_concat hfirst hlast hlength
    refine ⟨first, close, body, hclose, hbody, hne, fun c hc => ?_⟩
    exact Bool.eq_false_iff.2 (hblank c (by simp [hbody, hc]))
  · rintro ⟨first, close, body, hclose, hbody, hword⟩
    have hlength : 0 < body.length := List.length_pos_iff.2 hword.ne_nil
    have hlast : (first :: body ++ [close]).getLast? = some close := List.getLast?_concat
    have hblank : ∀ c ∈ body, ¬ Text.isBlank c = true := fun c hc =>
      Bool.eq_false_iff.1 (hword.not_blank c hc)
    rw [hbody, hlast]
    simp only [List.cons_append, List.forall_mem_cons, List.forall_mem_append]
    -- the delimiters themselves are no blanks
    rcases closingDelimiter?_eq_some_iff.1 hclose with ⟨rfl, rfl⟩ | ⟨rfl, rfl⟩
    · exact ⟨⟨.inl ⟨rfl, rfl⟩, by simpa using hlength⟩, by decide, hblank, by decide, by simp⟩
    · exact ⟨⟨.inr ⟨rfl, rfl⟩, by simpa using hlength⟩, by decide, hblank, by decide, by simp⟩

/-! ### Settings -/

namespace Settings

/-- One more header is accepted if it is a word in delimiters. -/
theorem exists_build_addInclude {s : Settings} {o : Options} (h : s.build = .ok o)
    {header : String} (hheader : isInclude header = true) :
    ∃ o', (s.apply (.addInclude header)).build = .ok o' := by
  have hall : ∀ c ∈ s.checks, c.holds = true := eq_of_build h ▸ o.holds_checks
  have hadded : ∀ c ∈ (s.apply (.addInclude header)).checks, c.holds = true := by
    simp only [checks, apply, List.map_append, List.forall_mem_append, List.forall_mem_cons]
      at hall ⊢
    obtain ⟨⟨⟨hbase, hnamespace, hincludes⟩, hmetadata⟩, hfile, hvisitor⟩ := hall
    exact ⟨⟨⟨hbase, hnamespace, hincludes, by simpa using hheader⟩, hmetadata⟩, hfile, hvisitor⟩
  obtain ⟨o', ho', -⟩ := exists_build_of_firstFailure (s := s.apply (.addInclude header))
    (List.find?_eq_none.2 fun c hc => by simp [hadded c hc])
  exact ⟨o', ho'⟩

/-- The included headers are words in delimiters, and any such word may be one of them. On the
line of a header the whole text is read as its name exactly if the word is free of the closing
delimiter. Otherwise the name ends at the first of them and the rest of the text is left over as
source; if nothing stands before it, no name is read at all. -/
theorem headerName?_includes (s : Settings) (o : Options) (h : s.build = .ok o) :
    (∀ header ∈ s.includes, ∃ first close body, InDelimiters header first close body ∧
      (∀ (t : Table) (d : Document), (t.header o).result = .ok d →
        "#include " ++ header ∈ d.lines) ∧
      (includedName? ("#include " ++ header) = some (header.toList, []) ↔ close ∉ body) ∧
      ∀ before after, body = before ++ close :: after → close ∉ before →
        includedName? ("#include " ++ header) =
          if before = [] then none else some (first :: before ++ [close], after ++ [close])) ∧
    ∀ header first close body, InDelimiters header first close body →
      ∃ o', (s.apply (.addInclude header)).build = .ok o' := by
  refine ⟨fun header hmem => ?_, fun header first close body hheader =>
    exists_build_addInclude h (isInclude_iff.2 ⟨first, close, body, hheader⟩)⟩
  have hs : o.toSettings = s := eq_of_build h
  have hmem' : header ∈ o.includes := hs ▸ hmem
  obtain ⟨first, close, body, hheader⟩ := isInclude_iff.1 (o.isInclude_of_mem hmem')
  refine ⟨first, close, body, hheader, fun t d hd => ?_, ?_, fun before after hbody hbefore => ?_⟩
  · have hdirective : "#include " ++ header ∈ (Header.lines o.toSettings t.toList).filter
        isDirective := by
      rw [Header.filter_isDirective_lines]
      exact List.mem_append_left _ (List.mem_append_right _ (List.mem_map_of_mem hmem'))
    rw [(Table.header_eq_ok_iff.1 hd).2]
    exact (List.mem_filter.1 hdirective).1
  · rw [includedName?_append, headerName?_eq_some_iff]
    constructor
    · rintro ⟨first', close', body', hclose', -, hbody', hlist, -⟩
      obtain ⟨-, rfl, rfl⟩ := cons_concat_inj (hheader.toList_eq.symm.trans hlist)
      exact hbody'
    · intro hbody
      exact ⟨first, close, body, hheader.closes, hheader.isWord.ne_nil, hbody, hheader.toList_eq,
        by simp⟩
  · have hlist : header.toList = first :: before ++ close :: (after ++ [close]) := by
      rw [hheader.toList_eq, hbody]
      simp
    rw [includedName?_append, hlist, headerName?_of_mem hheader.closes hbefore]

/-- Of these headers the first is read whole although a delimiter of the other kind stands in it,
the second only up to its first quote, and from the third no name is read. -/
theorem headerName?_includes_mixed : ∃ (s : Settings) (o : Options), s.build = .ok o ∧
    s.includes = ["\"a>b\"", "<a>.h>", "<>a>"] ∧
    includedName? "#include \"a>b\"" = some ("\"a>b\"".toList, []) ∧
    includedName? "#include <a>.h>" = some ("<a>".toList, ".h>".toList) ∧
    includedName? "#include <>a>" = none := by
  let s : Settings := { includes := ["\"a>b\"", "<a>.h>", "<>a>"] }
  obtain ⟨o, ho, -⟩ := exists_build_of_firstFailure (s := s) (by decide)
  obtain ⟨hincludes, -⟩ := headerName?_includes s o ho
  refine ⟨s, o, ho, rfl, ?_, ?_, ?_⟩
  · obtain ⟨first, close, body, hheader, -, hwhole, -⟩ :=
      hincludes "\"a>b\"" List.mem_cons_self
    have hlist : first :: body ++ [close] = '"' :: ['a', '>', 'b'] ++ ['"'] :=
      hheader.toList_eq.symm
    obtain ⟨rfl, rfl, rfl⟩ := cons_concat_inj hlist
    exact hwhole.2 (by decide)
  · obtain ⟨first, close, body, hheader, -, -, hcut⟩ := hincludes "<a>.h>" (by simp [s])
    have hlist : first :: body ++ [close] = '<' :: ['a', '>', '.', 'h'] ++ ['>'] :=
      hheader.toList_eq.symm
    obtain ⟨rfl, rfl, rfl⟩ := cons_concat_inj hlist
    exact hcut ['a'] ['.', 'h'] rfl (by decide)
  · obtain ⟨first, close, body, hheader, -, -, hcut⟩ := hincludes "<>a>" (by simp [s])
    have hlist : first :: body ++ [close] = '<' :: ['>', 'a'] ++ ['>'] := hheader.toList_eq.symm
    obtain ⟨rfl, rfl, rfl⟩ := cons_concat_inj hlist
    exact hcut [] ['a'] rfl (by decide)

end Settings

/-- A text in angle brackets that goes on behind the first closing one with the start of a comment
is accepted. The name on its line is read to its bracket only, and the comment is left over. -/
theorem Table.headerName?_comment : ∃ (t : Table) (o : Options) (d : Document),
    (ofList ["A: int x"]).result = .ok t ∧
      ({ includes := ["<a>/*>"] } : Settings).build = .ok o ∧ (t.header o).result = .ok d ∧
      isInclude "<a>/*>" = true ∧ "#include <a>/*>" ∈ d.lines ∧
      includedName? "#include <a>/*>" = some ("<a>".toList, "/*>".toList) := by
  let n : Node :=
    { name := "A"
      fields := [⟨"int", "x", by decide, by decide⟩]
      isIdentifier_name := by decide
      fields_ne_nil := by decide
      nodup_fields := by decide }
  have hreads : Reads (listEntries ["A: int x"]) [n] := by rfl
  obtain ⟨o, ho, hsettings⟩ :=
    Settings.exists_build_of_firstFailure (s := { includes := ["<a>/*>"] }) (by decide)
  obtain ⟨t, ht, -, h⟩ := exists_header_of_reads hreads (by decide) o (by rw [hsettings]; decide)
  refine ⟨t, o, _, ht, ho, h, by decide, ?_, by decide⟩
  rw [hsettings]
  decide

end NodeHeader
