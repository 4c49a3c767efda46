/-
  The guard of a header as a name.

  Every guard is a macro name: a capital letter and then capital letters, digits and single
  underscores (`Guard.isMacroName_ofNames`). Conversely every macro name is a guard, as the
  squeezing of a source leaves such a name as it is (`Guard.ofNames_of_isMacroName`). Both are
  inductions on the source from its end, where `Guard.squeeze_concat` says what one more
  character does.

  Nothing compares the guard with the names in the header, where the preprocessor would erase
  it. `Table.guard_ne_givenNames` says for which names this cannot happen, and that there is a
  file name for which it does happen to any other.
-/
import NodeHeader.Proofs.Cpp.Identifier
import NodeHeader.Proofs.Header.Conflict
import Mathlib.Data.List.Chain
import Mathlib.Data.List.Induction

namespace NodeHeader

namespace Guard

/-! ### Macro names -/

/-- Whether the character may stand in a guard. -/
def isMacroChar (c : Char) : Bool :=
  c.isUpper || c.isDigit || c = '_'

/-- Capital letters, digits and underscores, no underscore at the start and no two in a row. -/
structure Squeezed (cs : List Char) : Prop where
  chars : ∀ c ∈ cs, isMacroChar c = true
  head_ne : cs.head? ≠ some '_'
  apart : cs.IsChain fun a b => a = '_' → b ≠ '_'

/-- A name like those of guards. -/
structure IsMacroName (name : String) : Prop where
  squeezed : Squeezed name.toList
  head_isUpper : ∃ c, name.toList.head? = some c ∧ c.isUpper = true

theorem squeezed_nil : Squeezed [] where
  chars := by simp
  head_ne := by simp
  apart := .nil

theorem squeezed_concat_iff {cs : List Char} {c : Char} :
    Squeezed (cs ++ [c]) ↔ Squeezed cs ∧ isMacroChar c = true ∧
      (c = '_' → cs ≠ [] ∧ cs.getLast? ≠ some '_') := by
  constructor
  · rintro ⟨hchars, hhead, hapart⟩
    rw [List.isChain_append] at hapart
    refine ⟨⟨fun d hd => hchars d (by simp [hd]), ?_, hapart.1⟩, hchars c (by simp), ?_⟩
    · cases cs with
      | nil => simp
      | cons d rest => exact hhead
    · rintro rfl
      refine ⟨?_, fun hlast => ?_⟩
      · rintro rfl
        exact hhead rfl
      · exact hapart.2.2 '_' hlast '_' rfl rfl rfl
  · rintro ⟨⟨hchars, hhead, hapart⟩, hc, hunderscore⟩
    refine ⟨?_, ?_, ?_⟩
    · intro d hd
      rcases List.mem_append.1 hd with hd | hd
      · exact hchars d hd
      · rwa [List.mem_singleton.1 hd]
    · cases cs with
      | nil =>
        intro heq
        exact (hunderscore (Option.some.inj heq)).1 rfl
      | cons d rest => exact hhead
    · refine List.isChain_append.2 ⟨hapart, .singleton c, ?_⟩
      rintro a ha b hb rfl rfl
      obtain rfl := Option.some.inj hb
      exact (hunderscore rfl).2 ha

/-! ### Capitals -/

theorem isMacroChar_toUpper {c : Char} (h : c.isAlphanum = true) :
    isMacroChar c.toUpper = true ∧ c.toUpper ≠ '_' :=
  Cpp.forall_isTypeChar
    (P := fun c => c.isAlphanum = true → isMacroChar c.toUpper = true ∧ c.toUpper ≠ '_')
    (by decide +kernel) (by simp [Cpp.isTypeChar, h]) h

theorem isAlphanum_of_isUpper {c : Char} (h : c.isUpper = true) : c.isAlphanum = true := by
  show (c.isUpper || c.isLower || c.isDigit) = true
  rw [h]
  rfl

theorem isTypeChar_of_isMacroChar {c : Char} (h : isMacroChar c = true) :
    Cpp.isTypeChar c = true := by
  simp only [isMacroChar, Bool.or_eq_true, decide_eq_true_eq] at h
  rcases h with (h | h) | rfl
  · simp [Cpp.isTypeChar, isAlphanum_of_isUpper h]
  · simp [Cpp.isTypeChar, Char.isAlphanum, h]
  · decide

theorem isAlphanum_of_isMacroChar {c : Char} (h : isMacroChar c = true) (hne : c ≠ '_') :
    c.isAlphanum = true ∧ c.toUpper = c :=
  Cpp.forall_isTypeChar
    (P := fun c => isMacroChar c = true → c ≠ '_' → c.isAlphanum = true ∧ c.toUpper = c)
    (by decide +kernel) (isTypeChar_of_isMacroChar h) h hne

theorem isDigit_eq_false_of_isUpper {c : Char} (h : c.isUpper = true) : c.isDigit = false :=
  Cpp.forall_isTypeChar (P := fun c => c.isUpper = true → c.isDigit = false)
    (by decide +kernel) (by simp [Cpp.isTypeChar, isAlphanum_of_isUpper h]) h

/-! ### Squeezing -/

theorem reverse_extend (cs : List Char) (c : Char) :
    (extend cs.reverse c).reverse =
      if c.isAlphanum = true then cs ++ [c.toUpper]
      else if cs = [] ∨ cs.getLast? = some '_' then cs else cs ++ ['_'] := by
  obtain ⟨reversed, rfl⟩ : ∃ reversed, cs = reversed.reverse := ⟨cs.reverse, by simp⟩
  rw [List.reverse_reverse, List.getLast?_reverse]
  unfold extend
  by_cases hc : c.isAlphanum = true
  · rw [if_pos hc, if_pos hc, List.reverse_cons]
  rw [if_neg hc, if_neg hc]
  cases reversed with
  | nil => rfl
  | cons d rest =>
    by_cases hd : d = '_'
    · subst hd
      simp
    · simp [hd]

theorem squeeze_concat (cs : List Char) (c : Char) :
    squeeze (cs ++ [c]) =
      if c.isAlphanum = true then squeeze cs ++ [c.toUpper]
      else if squeeze cs = [] ∨ (squeeze cs).getLast? = some '_' then squeeze cs
      else squeeze cs ++ ['_'] := by
  rw [← reverse_extend, squeeze, squeeze, List.foldl_concat, List.reverse_reverse]

theorem squeezed_squeeze (cs : List Char) : Squeezed (squeeze cs) := by
  induction cs using List.reverseRecOn with
  | nil => exact squeezed_nil
  | append_singleton cs c ih =>
    rw [squeeze_concat]
    split
    · next hc =>
      obtain ⟨hupper, hne⟩ := isMacroChar_toUpper hc
      exact squeezed_concat_iff.2 ⟨ih, hupper, fun heq => absurd heq hne⟩
    split
    · exact ih
    · next hlast => exact squeezed_concat_iff.2 ⟨ih, by decide, fun _ => not_or.1 hlast⟩

/-- What is squeezed already stays as it is. -/
theorem squeeze_eq_self {cs : List Char} (h : Squeezed cs) : squeeze cs = cs := by
  induction cs using List.reverseRecOn with
  | nil => rfl
  | append_singleton cs c ih =>
    obtain ⟨hcs, hc, hunderscore⟩ := squeezed_concat_iff.1 h
    rw [squeeze_concat, ih hcs]
    by_cases hne : c = '_'
    · subst hne
      rw [if_neg (by decide), if_neg (not_or.2 (hunderscore rfl))]
    · obtain ⟨halnum, hupper⟩ := isAlphanum_of_isMacroChar hc hne
      rw [if_pos halnum, hupper]

theorem prefix_squeeze_concat (cs : List Char) (c : Char) :
    squeeze cs <+: squeeze (cs ++ [c]) := by
  rw [squeeze_concat]
  split
  · exact List.prefix_append _ _
  split
  · exact List.prefix_refl _
  · exact List.prefix_append _ _

theorem prefix_squeeze_append (cs ds : List Char) : squeeze cs <+: squeeze (cs ++ ds) := by
  induction ds using List.reverseRecOn with
  | nil => simp
  | append_singleton ds d ih =>
    rw [← List.append_assoc]
    exact ih.trans (prefix_squeeze_concat (cs ++ ds) d)

/-- After an underscore only a letter or a digit adds something. -/
theorem squeeze_append_eq_self_iff {cs ds : List Char} (h : (squeeze cs).getLast? = some '_') :
    squeeze (cs ++ ds) = squeeze cs ↔ ∀ d ∈ ds, d.isAlphanum = false := by
  induction ds using List.reverseRecOn with
  | nil => simp
  | append_singleton ds d ih =>
    have hsnoc : squeeze (cs ++ (ds ++ [d])) = squeeze cs ↔
        squeeze (cs ++ ds) = squeeze cs ∧ d.isAlphanum = false := by
      rw [← List.append_assoc]
      constructor
      · intro heq
        -- nothing is ever taken away
        have hshort : squeeze (cs ++ ds) <+: squeeze cs := heq ▸ prefix_squeeze_concat (cs ++ ds) d
        have hsame : squeeze (cs ++ ds) = squeeze cs :=
          hshort.eq_of_length_le (prefix_squeeze_append cs ds).length_le
        refine ⟨hsame, Bool.eq_false_iff.2 fun hd => ?_⟩
        rw [squeeze_concat, if_pos hd, hsame] at heq
        exact absurd heq (by simp)
      · rintro ⟨hsame, hd⟩
        rw [squeeze_concat, hd, hsame, if_neg (by simp), if_pos (.inr h)]
    rw [hsnoc, ih, List.forall_mem_append, List.forall_mem_singleton]

/-- An underscore and what follows it add nothing exactly if there is an underscore at the end
already, and neither a letter nor a digit follows. -/
theorem squeeze_append_cons_eq_self_iff {cs ds : List Char} (hne : squeeze cs ≠ []) :
    squeeze (cs ++ '_' :: ds) = squeeze cs ↔
      (squeeze cs).getLast? = some '_' ∧ ∀ d ∈ ds, d.isAlphanum = false := by
  have hlast (h : squeeze (cs ++ '_' :: ds) = squeeze cs) :
      (squeeze cs).getLast? = some '_' := by
    have hshort : squeeze (cs ++ ['_']) <+: squeeze cs := by
      rw [← h, List.append_cons cs '_' ds]
      exact prefix_squeeze_append _ _
    have hsame : squeeze (cs ++ ['_']) = squeeze cs :=
      hshort.eq_of_length_le (prefix_squeeze_concat cs '_').length_le
    rw [squeeze_concat, if_neg (by decide)] at hsame
    split at hsame
    · next hor => exact hor.resolve_left hne
    · exact absurd hsame (by simp)
  constructor
  · intro h
    have hall := (squeeze_append_eq_self_iff (hlast h)).1 h
    exact ⟨hlast h, fun d hd => hall d (List.mem_cons_of_mem _ hd)⟩
  · rintro ⟨hend, hds⟩
    refine (squeeze_append_eq_self_iff hend).2 ?_
    exact List.forall_mem_cons.2 ⟨by decide, hds⟩

/-! ### Guards -/

theorem isMacroName_header : IsMacroName "HEADER" where
  squeezed := ⟨List.all_eq_true.1 (by decide), by decide, by decide⟩
  head_isUpper := ⟨'H', rfl, by decide⟩

/-- Every guard is a macro name. -/
theorem isMacroName_ofNames (namespaceName fileName : String) :
    IsMacroName (ofNames namespaceName fileName) := by
  have h := squeezed_squeeze (source namespaceName fileName).toList
  unfold ofNames
  split
  · exact isMacroName_header
  · next first rest heq =>
    rw [heq] at h
    split
    · next hdigit =>
      have hne : first ≠ '_' := fun hf => h.head_ne (by rw [hf]; rfl)
      have happend : ("HEADER_" ++ String.ofList (first :: rest)).toList =
          ['H', 'E', 'A', 'D', 'E', 'R', '_'] ++ first :: rest := by simp
      refine ⟨?_, 'H', by rw [happend]; rfl, by decide⟩
      rw [happend]
      refine ⟨?_, by simp, List.isChain_append.2 ⟨by decide, h.apart, ?_⟩⟩
      · exact List.forall_mem_append.2 ⟨List.all_eq_true.1 (by decide), h.chars⟩
      · rintro a - b hb -
        obtain rfl := Option.some.inj hb
        exact hne
    · next hdigit =>
      refine ⟨by rwa [String.toList_ofList], first, by rw [String.toList_ofList]; rfl, ?_⟩
      -- the first character is neither an underscore nor a digit
      have hfirst := h.chars first List.mem_cons_self
      have hne : first ≠ '_' := fun hf => h.head_ne (by rw [hf]; rfl)
      simpa [isMacroChar, hdigit, hne] using hfirst

theorem ofNames_eq_ofList {namespaceName fileName : String} {c : Char} {rest : List Char}
    (hs : squeeze (source namespaceName fileName).toList = c :: rest) (hc : c.isUpper = true) :
    ofNames namespaceName fileName = String.ofList (c :: rest) := by
  have hdigit : c.isDigit = false := isDigit_eq_false_of_isUpper hc
  rw [ofNames, hs]
  dsimp only
  rw [hdigit, if_neg (by decide)]

theorem ofNames_of_squeeze {namespaceName fileName name : String} (h : IsMacroName name)
    (hs : squeeze (source namespaceName fileName).toList = name.toList) :
    ofNames namespaceName fileName = name := by
  obtain ⟨c, hc, hupper⟩ := h.head_isUpper
  obtain ⟨rest, hrest⟩ := List.head?_eq_some_iff.1 hc
  rw [ofNames_eq_ofList (hs.trans hrest) hupper, ← hrest, String.ofList_toList]

/-- Every macro name is the guard of a file of this name outside of namespaces. -/
theorem ofNames_of_isMacroName {name : String} (h : IsMacroName name) : ofNames "" name = name :=
  ofNames_of_squeeze h (squeeze_eq_self h.squeezed)

/-- A guard is the name of its namespace exactly if this is a macro name with an underscore at
its end, and nothing of the file name is left in the guard. -/
theorem ofNames_eq_namespace_iff {namespaceName fileName : String} :
    ofNames namespaceName fileName = namespaceName ↔ IsMacroName namespaceName ∧
      namespaceName.toList.getLast? = some '_' ∧
      ∀ c ∈ fileName.toList, c.isAlphanum = false := by
  have hsource (hname : IsMacroName namespaceName) :
      (source namespaceName fileName).toList = namespaceName.toList ++ '_' :: fileName.toList ∧
      squeeze namespaceName.toList = namespaceName.toList ∧ namespaceName.toList ≠ [] := by
    obtain ⟨c, hc, -⟩ := hname.head_isUpper
    have hne : namespaceName ≠ "" := by
      rintro rfl
      cases hc
    exact ⟨by simp [source, hne], squeeze_eq_self hname.squeezed, by simpa using hne⟩
  constructor
  · intro h
    have hname : IsMacroName namespaceName := h ▸ isMacroName_ofNames namespaceName fileName
    obtain ⟨hlist, hself, hne⟩ := hsource hname
    obtain ⟨c, hc, hupper⟩ := hname.head_isUpper
    obtain ⟨rest, hrest⟩ := List.head?_eq_some_iff.1 hc
    -- the squeezed source begins with the namespace, and is all of the guard
    have hall : squeeze (namespaceName.toList ++ '_' :: fileName.toList) =
        squeeze namespaceName.toList := by
      obtain ⟨more, hmore⟩ := prefix_squeeze_append namespaceName.toList ('_' :: fileName.toList)
      rw [hself, hrest, List.cons_append, ← hrest, ← hlist] at hmore
      have hguard := ofNames_eq_ofList hmore.symm hupper
      rw [h] at hguard
      rw [← hlist, ← hmore, hself, hguard, String.toList_ofList]
    obtain ⟨hlast, hfile⟩ :=
      (squeeze_append_cons_eq_self_iff (by rwa [hself])).1 hall
    exact ⟨hname, hself ▸ hlast, hfile⟩
  · rintro ⟨hname, hlast, hfile⟩
    obtain ⟨hlist, hself, hne⟩ := hsource hname
    refine ofNames_of_squeeze hname ?_
    rw [hlist, (squeeze_append_cons_eq_self_iff (by rwa [hself])).2 ⟨by rwa [hself], hfile⟩, hself]

end Guard

/-! ### Guards and given names -/

/-- The names that are given to a header and stand in it after its guard: those of the namespace,
the base type, the visitor interface, the nodes and the fields. -/
def Header.givenNames (s : Settings) (nodes : List Node) : List String :=
  [s.namespaceName].filter (!·.isEmpty) ++ s.base ::
    (s.visitor.toList.map fun _ => visitorName s.base) ++
    nodes.flatMap fun n => n.name :: n.fields.map Field.name

theorem Header.exists_lines_eq (s : Settings) (nodes : List Node) : ∃ rest,
    lines s nodes = s.metadata.comment ++ Guard.opening s.guard ++ rest := by
  have hfirst : spaced (s.metadata.comment ++ Guard.opening s.guard) =
      s.metadata.comment ++ Guard.opening s.guard ++ [""] := rfl
  rw [lines, paragraphs, opening, List.cons_append, List.flatMap_cons, hfirst, List.append_assoc,
    List.append_assoc]
  exact ⟨_, rfl⟩

theorem mem_of_holdsCommentEnd {cs : List Char} (h : holdsCommentEnd cs = true) : '*' ∈ cs := by
  fun_induction holdsCommentEnd cs with
  | case1 rest => exact List.mem_cons_self
  | case2 c rest _ ih => exact List.mem_cons_of_mem c (ih h)
  | case3 => cases h

theorem Guard.IsMacroName.not_mem {name : String} (h : Guard.IsMacroName name) {c : Char}
    (hc : Guard.isMacroChar c = false) : c ∉ name.toList := by
  intro hmem
  rw [h.squeezed.chars c hmem] at hc
  cases hc

theorem fitsCommentLine_of_isMacroName {name : String} (h : Guard.IsMacroName name) :
    fitsCommentLine name = true := by
  have hend : holdsCommentEnd name.toList = false :=
    Bool.eq_false_iff.2 fun hend => h.not_mem (by decide) (mem_of_holdsCommentEnd hend)
  simp [fitsCommentLine, hend, h.not_mem (c := '\n') (by decide),
    h.not_mem (c := '\r') (by decide)]

theorem isBlankText_of_isMacroName {name : String} (h : Guard.IsMacroName name) :
    isBlankText name = false := by
  obtain ⟨c, hc, -⟩ := h.head_isUpper
  have hmem : c ∈ name.toList := List.mem_of_head? hc
  have hblank : Text.isBlank c = false := Cpp.isBlank_eq_false_of_isTypeChar
    (Guard.isTypeChar_of_isMacroChar (h.squeezed.chars c hmem))
  exact List.all_eq_false.2 ⟨c, hmem, by simp [hblank]⟩

/-- With another file name and without a namespace, any macro name is the guard. -/
theorem Options.exists_guard_eq (o : Options) {name : String} (h : Guard.IsMacroName name) :
    ∃ o' : Options, o'.toSettings = { o.toSettings with
      namespaceName := "", metadata := { o.metadata with fileName := name } } ∧
      o'.guard = name := by
  have hall := o.holds_checks
  let s : Settings := { o.toSettings with
    namespaceName := "", metadata := { o.metadata with fileName := name } }
  have hs : ∀ c ∈ s.checks, c.holds = true := by
    simp only [s, Settings.checks, Metadata.checks, List.forall_mem_append,
      List.forall_mem_cons] at hall ⊢
    obtain ⟨⟨⟨hbase, -, hincludes⟩, htitle, hcopyright, -, hdescription, hversion⟩, -, hvisitor⟩ :=
      hall
    exact ⟨⟨⟨hbase, rfl, hincludes⟩, htitle, hcopyright, fitsCommentLine_of_isMacroName h,
      hdescription, hversion⟩, by rw [isBlankText_of_isMacroName h]; rfl, hvisitor⟩
  exact ⟨⟨s, hs⟩, rfl, Guard.ofNames_of_isMacroName h⟩

theorem Options.isMacroName_guard (o : Options) : Guard.IsMacroName o.guard :=
  Guard.isMacroName_ofNames o.namespaceName o.metadata.fileName

theorem not_isMacroName_visitorName (base : String) :
    ¬ Guard.IsMacroName (Header.visitorName base) := by
  intro h
  have hmem : 'i' ∈ (Header.visitorName base).toList := by simp [Header.visitorName]
  exact absurd (h.squeezed.chars 'i' hmem) (by decide)

namespace Table

/-- The guard that a header defines is a macro name, so it is none of the given names that are
no macro names, and never that of the visitor interface. It is the name of the namespace only if
this ends with an underscore and the file name adds nothing to it. But any macro name is the
guard of the same nodes for some file name, and no check keeps it from being a given name. -/
theorem guard_ne_givenNames (t : Table) (o : Options) (d : Document)
    (h : (t.header o).result = .ok d) :
    (∃ rest, d.lines = o.metadata.comment ++ Guard.opening o.guard ++ rest) ∧
    (∀ name ∈ Header.givenNames o.toSettings t.toList, ¬ Guard.IsMacroName name →
      o.guard ≠ name) ∧
    o.guard ≠ Header.visitorName o.base ∧
    (o.guard = o.namespaceName ↔ Guard.IsMacroName o.namespaceName ∧
      o.namespaceName.toList.getLast? = some '_' ∧
      ∀ c ∈ o.metadata.fileName.toList, c.isAlphanum = false) ∧
    ∀ name, Guard.IsMacroName name → ∃ o' : Options, o'.base = o.base ∧
      o'.visitor = o.visitor ∧ o'.guard = name ∧ ∃ d', (t.header o').result = .ok d' := by
  obtain ⟨hcheck, hlines⟩ := header_eq_ok_iff.1 h
  refine ⟨?_, ?_, ?_, Guard.ofNames_eq_namespace_iff, fun name hname => ?_⟩
  · obtain ⟨rest, hrest⟩ := Header.exists_lines_eq o.toSettings t.toList
    exact ⟨rest, hlines.trans hrest⟩
  · rintro name - hname rfl
    exact hname o.isMacroName_guard
  · intro heq
    exact not_isMacroName_visitorName o.base (heq ▸ o.isMacroName_guard)
  · obtain ⟨o', ho', hguard⟩ := o.exists_guard_eq hname
    have hcheck' : t.check o'.toSettings = .ok () := by
      rw [ho']
      exact hcheck
    exact ⟨o', by rw [ho'], by rw [ho'], hguard, _, header_eq_ok_iff.2 ⟨hcheck', rfl⟩⟩

/-- In the namespace `A_` a file of signs alone has the namespace for its guard. -/
theorem guard_eq_namespace : ∃ (t : Table) (o : Options) (d : Document),
    (ofList ["B: int x"]).result = .ok t ∧
      o.toSettings = { namespaceName := "A_", metadata := { fileName := "+" } } ∧
      (t.header o).result = .ok d ∧ "namespace A_ \x7b" ∈ d.lines ∧ o.guard = "A_" := by
  let n : Node :=
    { name := "B"
      fields := [⟨"int", "x", by decide, by decide⟩]
      isIdentifier_name := by decide
      fields_ne_nil := by decide
      nodup_fields := by decide }
  let o : Options :=
    { namespaceName := "A_", metadata := { fileName := "+" }
      holds_checks := by decide }
  have hreads : Reads (listEntries ["B: int x"]) [n] := by rfl
  obtain ⟨t, ht, -, h⟩ := exists_header_of_reads hreads (by decide) o (by decide)
  have hname : Guard.IsMacroName "A_" :=
    ⟨⟨List.all_eq_true.1 (by decide), by decide, by decide⟩, 'A', rfl, by decide⟩
  have hfile : ∀ c ∈ o.metadata.fileName.toList, c.isAlphanum = false := by simp [o]
  obtain ⟨-, -, -, hnamespace, -⟩ := guard_ne_givenNames t o _ h
  exact ⟨t, o, _, ht, rfl, h, by decide, hnamespace.2 ⟨hname, by decide, hfile⟩⟩

/-- With the default options, a node has the name of the guard. -/
theorem guard_eq_node : ∃ (t : Table) (d : Document),
    (ofList ["DARGON_EXPR_H: int x"]).result = .ok t ∧
      (t.header Options.default).result = .ok d ∧
      ["#ifndef DARGON_EXPR_H", "#define DARGON_EXPR_H"] <:+: d.lines ∧
      "struct DARGON_EXPR_H : public Expr \x7b" ∈ d.lines ∧
      Options.default.guard ∈ Header.givenNames Options.default.toSettings t.toList := by
  let n : Node :=
    { name := "DARGON_EXPR_H"
      fields := [⟨"int", "x", by decide, by decide⟩]
      isIdentifier_name := by decide
      fields_ne_nil := by decide
      nodup_fields := by decide }
  have hreads : Reads (listEntries ["DARGON_EXPR_H: int x"]) [n] := by rfl
  obtain ⟨t, ht, htoList, h⟩ :=
    exists_header_of_reads hreads (by decide) Options.default (by decide)
  refine ⟨t, _, ht, h, by decide, by decide, ?_⟩
  rw [htoList]
  decide

end Table

end NodeHeader
