/-
  The settings that a header is written with, read back from its lines.

  Each setting is looked for where the layout puts it: the texts of the comment after the words
  before them, the included headers on their directives, the base type as the last struct that
  derives from no other, the namespace on the line that closes it, and the visitor's return type in
  the method that the base type has. What a setting looks like does not matter, since each place
  is told apart from all others by what the options do not reach: a line's number, its first
  character, or the struct it stands in (`settings?_lines`).

  So the text of a header determines the options (`Table.options_of_text`).
-/
import NodeHeader.Proofs.Header.LineBreaks
import NodeHeader.Proofs.Header.Scaffolding
import NodeHeader.Proofs.Header.Skeleton

namespace NodeHeader.Header

open NodeHeader.Cpp (Struct)

/-! ### Reading settings -/

/-- The text after a start on a line. -/
def textAfter? (start line : String) : Option String :=
  (start.toList.isPrefixOf? line.toList).map String.ofList

/-- The texts of a comment in the first lines. -/
def metadata? : List String → Option Metadata
  | _ :: title :: copyright :: _ :: fileName :: _ :: description :: _ :: version :: _ => do
    return {
      title := ← textAfter? " * " title
      copyright := ← textAfter? " * " copyright
      fileName := ← textAfter? " * FILE: " fileName
      description := ← textAfter? " * DESCRIPTION: " description
      version := ← textAfter? " * SINCE: " version }
  | _ => none

/-- The headers that are included, in order. -/
def included (lines : List String) : List String :=
  lines.filterMap (textAfter? "#include ")

/-- The structs that derive from no other, in order. -/
def roots (lines : List String) : List String :=
  ((lines.filterMap definition?).filter (·.2.isNone)).map Prod.fst

/-- The namespace that is closed on the last line but one; empty if none is. -/
def closedNamespace (lines : List String) : String :=
  (lines.dropLast.getLast?.bind (textAfter? "\x7d // namespace ")).getD ""

/-- The visitor that a base type accepts. -/
def visitor? (base : String) (lines : List String) : Option Visitor :=
  ((methodsIn lines).lookup base).map fun m => { returnType := m.signature.returnType }

/-- The settings that a header is written with. -/
def settings? (lines : List String) : Option Settings := do
  let base ← (roots lines).getLast?
  let metadata ← metadata? lines
  return {
    base
    namespaceName := closedNamespace lines
    includes := included lines
    metadata
    visitor := visitor? base lines }

/-! ### Each setting -/

theorem textAfter?_append (start text : String) : textAfter? start (start ++ text) = some text := by
  rw [textAfter?, isPrefixOf?_append, Option.map_some, String.ofList_toList]

theorem textAfter?_eq_none_of_not_prefix {start line : String}
    (h : ¬ start.toList <+: line.toList) : textAfter? start line = none := by
  rw [textAfter?, isPrefixOf?_eq_none_iff.2 h]
  rfl

theorem metadata?_comment_append (m : Metadata) (rest : List String) :
    metadata? (m.comment ++ rest) = some m := by
  simp only [Metadata.comment, List.cons_append, metadata?, textAfter?_append,
    Option.bind_eq_bind, Option.bind_some]
  rfl

theorem metadata?_lines (s : Settings) (nodes : List Node) :
    metadata? (lines s nodes) = some s.metadata := by
  obtain ⟨rest, hrest⟩ := exists_lines_eq s nodes
  rw [hrest, List.append_assoc]
  exact metadata?_comment_append s.metadata _

/-- Only a directive includes a header, and of those of a header only the lines for that do. -/
theorem included_lines (s : Settings) (nodes : List Node) :
    included (lines s nodes) = s.includes := by
  have hdirective (line : String) (h : isDirective line = false) :
      textAfter? "#include " line = none := by
    refine textAfter?_eq_none_of_not_prefix fun ⟨rest, hrest⟩ => ?_
    rw [isDirective, ← hrest] at h
    cases h
  have hfilter : included ((lines s nodes).filter isDirective) = included (lines s nodes) := by
    rw [included, included, List.filterMap_filter]
    refine List.filterMap_congr fun line _ => ?_
    cases h : isDirective line with
    | true => rfl
    | false => exact (hdirective line h).symm
  have hincludes : included (includeLines s.includes) = s.includes := by
    rw [included, includeLines, List.filterMap_map]
    exact (List.filterMap_congr fun header _ => textAfter?_append "#include " header).trans
      (List.filterMap_some)
  have hguard : ∀ line ∈ Guard.opening s.guard ++ [Guard.closing s.guard],
      textAfter? "#include " line = none := by
    intro line hline
    refine textAfter?_eq_none_of_not_prefix ?_
    simp only [Guard.opening, Guard.closing, List.cons_append, List.nil_append, List.mem_cons,
      List.not_mem_nil, or_false] at hline
    rcases hline with rfl | rfl | rfl <;> simp
  rw [List.forall_mem_append] at hguard
  rw [← hfilter, filter_isDirective_lines, included, List.filterMap_append, List.filterMap_append,
    List.filterMap_eq_nil_iff.2 hguard.1, List.filterMap_eq_nil_iff.2 hguard.2, List.nil_append,
    List.append_nil]
  exact hincludes

/-- Of the structs of a header only the visitor interface and the base type derive from no
other. -/
theorem roots_lines {s : Settings} (hbase : Cpp.isIdentifier s.base = true) (nodes : List Node) :
    roots (lines s nodes) = (s.visitor.toList.map fun _ => visitorName s.base) ++ [s.base] := by
  have hdefinitions : (lines s nodes).filterMap definition? =
      (s.visitor.toList.map fun _ => (visitorName s.base, none)) ++
        (s.base, none) :: nodes.map fun n => (n.name, some s.base) := by
    rw [filterMap_definition?, blocks_lines hbase, List.map_map]
    exact map_ofStruct_structs s nodes
  rw [roots, hdefinitions, List.filter_append, List.filter_cons_of_pos rfl, List.filter_map,
    List.filter_map]
  simp [Function.comp_def]

/-- The line before the last one closes the namespace, or it is empty. -/
theorem closedNamespace_lines (s : Settings) (nodes : List Node) :
    closedNamespace (lines s nodes) = s.namespaceName := by
  obtain ⟨cs, c, hstructs⟩ : ∃ cs c, structs s nodes = cs ++ [c] :=
    ⟨_, _, (List.dropLast_concat_getLast (by simp [structs])).symm⟩
  -- the line after the last struct is empty
  obtain ⟨front, hfront⟩ : ∃ front, lines s nodes =
      front ++ [""] ++ namespaceClosing s.namespaceName ++ [Guard.closing s.guard] := by
    refine ⟨((opening s nodes).take 4).flatMap spaced ++
      (cs.flatMap (fun c => c.lines ++ [""]) ++ c.lines), ?_⟩
    rw [lines_eq_structs, hstructs, List.flatMap_append, List.flatMap_singleton, closing]
    simp only [List.append_assoc]
  rw [closedNamespace, hfront, List.dropLast_concat]
  unfold namespaceClosing
  split
  · next hempty =>
    rw [List.append_nil, List.getLast?_concat]
    have hname : s.namespaceName = "" := by simpa using hempty
    rw [hname]
    rfl
  · rw [List.getLast?_concat, Option.bind_some, textAfter?_append, Option.getD_some]

/-- The first method of the base type is the one by which it accepts a visitor. -/
theorem visitor?_lines {s : Settings} (hbase : Cpp.isIdentifier s.base = true)
    (hv : ∀ v, s.visitor = some v → Cpp.isTypeName v.returnType = true) (nodes : List Node) :
    visitor? s.base (lines s nodes) = s.visitor := by
  rw [visitor?, methodsIn_lines hbase hv]
  cases hvisitor : s.visitor with
  | none =>
    have hmethods : ((structs s nodes).flatMap fun c =>
        (c.members.filterMap method?).map (c.name, ·)) = [] := by
      rw [structs, hvisitor]
      refine List.flatMap_eq_nil_iff.2 (List.forall_mem_cons.2 ⟨?_, List.forall_mem_map.2 ?_⟩)
      · rw [filterMap_method?_baseStruct]
        rfl
      · intro n _
        rw [filterMap_method?_nodeStruct]
        rfl
    rw [hmethods]
    rfl
  | some v =>
    have hinterface : (nodes.map fun n =>
        (visitorName s.base, Method.pure (visitSignature v n))).lookup s.base = none :=
      List.lookup_eq_none_iff.2 (by simpa using fun _ _ => (visitorName_ne s.base).symm)
    rw [flatMap_methods_structs hvisitor, List.lookup_append, hinterface, Option.none_or,
      List.lookup_cons_self]
    rfl

/-- The settings are read from the lines that are written with them. -/
theorem settings?_lines (o : Options) (nodes : List Node) :
    settings? (lines o.toSettings nodes) = some o.toSettings := by
  rw [settings?, roots_lines o.isIdentifier_base, List.getLast?_concat, Option.bind_eq_bind,
    Option.bind_some, metadata?_lines]
  simp only [Option.bind_eq_bind, Option.bind_some, closedNamespace_lines, included_lines,
    visitor?_lines o.isIdentifier_base (fun _ => o.isTypeName_returnType)]
  rfl

end NodeHeader.Header

namespace NodeHeader

namespace Table

/-- The text of a header determines the options: the base type, the namespace, the included headers
in their order, the texts of the comment, and the visitor with its return type. -/
theorem options_of_text (t t' : Table) (o o' : Options) (d d' : Document)
    (h : (t.header o).result = .ok d) (h' : (t'.header o').result = .ok d')
    (htext : d.text = d'.text) : o = o' := by
  have hlines : d.lines = Header.lines o.toSettings t.toList := (header_eq_ok_iff.1 h).2
  have hlines' : d'.lines = Header.lines o'.toSettings t'.toList := (header_eq_ok_iff.1 h').2
  have hone : ∀ line ∈ d.lines, OneLine line := hlines ▸ Header.oneLine_lines o t.toList
  have hone' : ∀ line ∈ d'.lines, OneLine line := hlines' ▸ Header.oneLine_lines o' t'.toList
  obtain rfl : d = d' := Document.eq_of_text_eq hone hone' htext
  refine Options.ext_settings (Option.some.inj ?_)
  rw [← Header.settings?_lines o t.toList, ← hlines, hlines', Header.settings?_lines]

/-- Settings that look like other parts of a header, from two builds. -/
theorem options_of_text_lookalikes : ∃ (t t' : Table) (o o' : Options) (d d' : Document),
    (ofList ["A: int x"]).result = .ok t ∧ (ofList [" A :int  x"]).result = .ok t' ∧
      (({} : Settings).applyAll [.addInclude "<string>", .namespaceName "",
        .metadata { title := "#include <a>", copyright := "\x7d // namespace A", version := "" },
        .visitor { returnType := "ExprVisitor&" }]).build = .ok o ∧
      o'.includes = ["<string>", "<string>"] ∧
      (t.header o).result = .ok d ∧ (t'.header o').result = .ok d' ∧ d.text = d'.text ∧
      o = o' := by
  let n : Node :=
    { name := "A"
      fields := [⟨"int", "x", by decide, by decide⟩]
      isIdentifier_name := by decide
      fields_ne_nil := by decide
      nodup_fields := by decide }
  let s : Settings :=
    ({} : Settings).applyAll [.addInclude "<string>", .namespaceName "",
      .metadata { title := "#include <a>", copyright := "\x7d // namespace A", version := "" },
      .visitor { returnType := "ExprVisitor&" }]
  let o' : Options := { toSettings := s, holds_checks := by decide }
  have hreads : Reads (listEntries ["A: int x"]) [n] := by rfl
  have hreads' : Reads (listEntries [" A :int  x"]) [n] := by rfl
  obtain ⟨o, ho, hs⟩ := Settings.exists_build_of_firstFailure (s := s) (by decide)
  have hfree : ∀ n' ∈ [n], Conflict.ofNode? o.toSettings n' = none := by
    rw [hs]
    decide
  obtain ⟨t, ht, htoList, h⟩ := exists_header_of_reads hreads (by decide) o hfree
  obtain ⟨t', ht', htoList', h'⟩ := exists_header_of_reads hreads' (by decide) o' (by decide)
  have htext : (Document.mk (Header.lines o.toSettings [n])).text =
      (Document.mk (Header.lines o'.toSettings [n])).text := by rw [hs]
  exact ⟨t, t', o, o', _, _, ht, ht', ho, by decide, h, h', htext,
    options_of_text t t' o o' _ _ h h' htext⟩

end Table

end NodeHeader
