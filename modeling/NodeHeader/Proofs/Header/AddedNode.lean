/-
  The header of a table with one node more.

  A header has lines for each node in three places: the announcements of the nodes, the methods of
  the visitor interface, and the structs of the nodes, each with an empty line after it. Where there
  are nodes, all other lines depend on the settings alone. They are the frame of the header, and the
  header is its frame filled with the lines of the nodes (`Header.lines_eq_fill`).

  A node that is added to a table stands last, so its lines follow those of the other nodes in each
  place. The check of names looks at each node by itself, so only the added one can be in conflict
  where the others are not (`Table.check_push_iff`). Both together are `Table.header_push`.
-/
import NodeHeader.Proofs.Header.FirstConflict
import NodeHeader.Proofs.Header.WithoutVisitor

namespace NodeHeader.Header

open NodeHeader.Cpp (Struct)

/-! ### The lines of a node -/

/-- The line that announces a node to the visitor interface, if there is a visitor. -/
def announcementLines (v : Option Visitor) (n : Node) : List String :=
  v.elim [] fun _ => ["struct " ++ n.name ++ ";"]

/-- The line of the method that the visitor interface has for a node, if there is a visitor. -/
def visitLines (v : Option Visitor) (n : Node) : List String :=
  v.elim [] fun v =>
    ["    virtual " ++ v.returnType ++ " Visit" ++ n.name ++ "(" ++ n.name ++ "& node) = 0;"]

/-- The lines of the struct of a node and the empty line after them. -/
def structLines (s : Settings) (n : Node) : List String :=
  (nodeStruct s.base s.visitor n).lines ++ [""]

/-! ### The frame -/

/-- The lines of a header that do not depend on its nodes. -/
structure Frame where
  /-- Before the announcements of the nodes. -/
  opening : List String
  /-- After the announcements, up to the methods of the visitor interface. -/
  interface : List String
  /-- After the methods, up to the structs of the nodes. -/
  base : List String
  /-- After the structs. -/
  closing : List String

/-- The lines of a frame with those of the nodes in their places. -/
def Frame.fill (f : Frame) (announcements visits structs : List String) : List String :=
  f.opening ++ announcements ++ f.interface ++ visits ++ f.base ++ structs ++ f.closing

/-- The frame of the headers that have nodes. -/
def frame (s : Settings) : Frame where
  opening :=
    [s.metadata.comment ++ Guard.opening s.guard, includeLines s.includes,
      namespaceOpening s.namespaceName].flatMap spaced
  interface := s.visitor.elim [] fun _ =>
    ["", "/**", " * @brief Visitor over every " ++ s.base ++ " node.", " */",
      "struct " ++ s.base ++ "Visitor \x7b", "    virtual ~" ++ s.base ++ "Visitor() \x7b\x7d"]
  base := (s.visitor.elim [] fun _ => ["\x7d;", ""]) ++ (baseStruct s.base s.visitor).lines ++ [""]
  closing := closing s

theorem spaced_forwardDeclarations (v : Visitor) {nodes : List Node} (hne : nodes ≠ []) :
    spaced (forwardDeclarations nodes) = nodes.flatMap (announcementLines (some v)) ++ [""] := by
  have hlines : forwardDeclarations nodes = nodes.flatMap (announcementLines (some v)) :=
    List.map_eq_flatMap
  rw [spaced, if_neg (by simpa [forwardDeclarations] using hne), hlines]

theorem lines_visitorInterface_append (base : String) (v : Visitor) (nodes : List Node) :
    (visitorInterface base nodes v).lines ++ [""] =
      ["/**", " * @brief Visitor over every " ++ base ++ " node.", " */",
        "struct " ++ base ++ "Visitor \x7b", "    virtual ~" ++ base ++ "Visitor() \x7b\x7d"] ++
      nodes.flatMap (visitLines (some v)) ++ ["\x7d;", ""] := by
  rw [lines_visitorInterface, interfaceEdit, List.map_map, List.map_eq_flatMap]
  rfl

/-- A header with nodes is its frame with the lines of the nodes. -/
theorem lines_eq_fill (s : Settings) {nodes : List Node} (hne : nodes ≠ []) :
    lines s nodes = (frame s).fill (nodes.flatMap (announcementLines s.visitor))
      (nodes.flatMap (visitLines s.visitor)) (nodes.flatMap (structLines s)) := by
  have hnodes : (nodes.map (nodeStruct s.base s.visitor)).flatMap (fun c => c.lines ++ [""]) =
      nodes.flatMap (structLines s) :=
    List.flatMap_map _ _ _
  rw [lines_eq_structs, flatMap_spaced_opening, structs, List.flatMap_append, List.flatMap_cons,
    hnodes, Frame.fill, frame]
  cases hv : s.visitor with
  | none =>
    -- neither announcements nor an interface
    have hannouncements : nodes.flatMap (announcementLines none) = [] :=
      List.flatMap_eq_nil_iff.2 fun _ _ => rfl
    have hvisits : nodes.flatMap (visitLines none) = [] :=
      List.flatMap_eq_nil_iff.2 fun _ _ => rfl
    rw [hannouncements, hvisits]
    simp [opening, spaced]
  | some v =>
    have hinterface := lines_visitorInterface_append s.base v nodes
    simp only [Option.elim_some, spaced_forwardDeclarations v hne, Option.toList_some,
      List.map_cons, List.map_nil, List.flatMap_cons, List.flatMap_nil, hinterface]
    simp [opening, List.append_assoc]

end NodeHeader.Header

namespace NodeHeader

/-! ### The check of names -/

namespace Conflict

variable {s : Settings} {nodes : List Node} {n : Node}

/-- After nodes without conflicts the search comes to the next node. -/
theorem isFirst_concat_iff (hfree : ∀ m ∈ nodes, ofNode? s m = none) {c : Conflict} :
    IsFirst s (nodes ++ [n]) c ↔ c.name = n.name ∧ FirstRival s n c.rival := by
  have hnone : nodes.findSome? (ofNode? s) = none := List.findSome?_eq_none_iff.2 hfree
  rw [← first?_eq_some_iff, first?, List.findSome?_append, hnone, Option.none_or,
    List.findSome?_singleton, ofNode?_eq_some_iff]

end Conflict

namespace Table

variable {t t' : Table} {n : Node}

theorem check_push_iff (h : t'.toList = t.toList ++ [n]) {s : Settings} :
    t'.check s = .ok () ↔ t.check s = .ok () ∧ Conflict.ofNode? s n = none := by
  rw [check_eq_ok_iff, check_eq_ok_iff, h, List.forall_mem_append, List.forall_mem_singleton]

theorem check_push_eq_error_iff (h : t'.toList = t.toList ++ [n]) {s : Settings}
    (hcheck : t.check s = .ok ()) {err : GenerationError} :
    t'.check s = .error err ↔
      ∃ c, err = .conflict c ∧ c.name = n.name ∧ Conflict.FirstRival s n c.rival := by
  simp only [check_eq_error_iff, h, Conflict.isFirst_concat_iff (check_eq_ok_iff.1 hcheck)]

/-! ### The header -/

/-- A node of a new name changes the header by its own lines only. It is accepted at the end of the
table. Where the longer table has a header, the shorter one has one too, and the two are the same
frame: the announcement of the added node follows those of the other nodes, its method in the
visitor interface follows theirs, and its struct with an empty line follows the last of their
structs and its empty line. Where only the shorter table has a header, the error is the conflict of
the added node. -/
theorem header_push (t : Table) (n : Node) (o : Options) (hne : t.isEmpty = false)
    (hname : t.contains n.name = false) :
    ∃ t', t.push n = .ok t' ∧ t'.toList = t.toList ++ [n] ∧
      (∀ d', (t'.header o).result = .ok d' → ∃ d, (t.header o).result = .ok d ∧
        d.lines = (Header.frame o.toSettings).fill
          (t.toList.flatMap (Header.announcementLines o.visitor))
          (t.toList.flatMap (Header.visitLines o.visitor))
          (t.toList.flatMap (Header.structLines o.toSettings)) ∧
        d'.lines = (Header.frame o.toSettings).fill
          (t.toList.flatMap (Header.announcementLines o.visitor) ++
            Header.announcementLines o.visitor n)
          (t.toList.flatMap (Header.visitLines o.visitor) ++ Header.visitLines o.visitor n)
          (t.toList.flatMap (Header.structLines o.toSettings) ++
            Header.structLines o.toSettings n)) ∧
      ∀ d, (t.header o).result = .ok d → ∀ err, (t'.header o).result = .error err ↔
        ∃ c, err = .conflict c ∧ c.name = n.name ∧
          Conflict.FirstRival o.toSettings n c.rival := by
  have hnew : n.name ∉ t.names := by
    rw [← contains_iff_mem_names, hname]
    exact Bool.false_ne_true
  have hnodes : t.toList ≠ [] := by
    intro hnil
    rw [isEmpty, Array.isEmpty_eq_false_iff] at hne
    exact hne (Array.toList_eq_nil_iff.1 hnil)
  obtain ⟨t', hpush, htoList⟩ := exists_push_of_not_mem hnew
  refine ⟨t', hpush, htoList, fun d' h' => ?_, fun d h err => ?_⟩
  · obtain ⟨hcheck', hlines'⟩ := header_eq_ok_iff.1 h'
    obtain ⟨hcheck, -⟩ := (check_push_iff htoList).1 hcheck'
    refine ⟨_, header_eq_ok_iff.2 ⟨hcheck, rfl⟩, Header.lines_eq_fill _ hnodes, ?_⟩
    rw [hlines', htoList, Header.lines_eq_fill _ (List.append_ne_nil_of_left_ne_nil hnodes _)]
    simp only [List.flatMap_append, List.flatMap_singleton]
  · obtain ⟨hcheck, -⟩ := header_eq_ok_iff.1 h
    rw [result_header_eq_error_iff, check_push_eq_error_iff htoList hcheck]

/-- A node is added to one other node, with a visitor; a node that has a field of its own name is
in conflict. -/
theorem header_push_visited :
    ∃ (t t' u : Table) (n m : Node) (o : Options) (d d' : Document),
      (ofList ["A: int x"]).result = .ok t ∧ t.isEmpty = false ∧
      n.name = "B" ∧ t.contains n.name = false ∧ t.push n = .ok t' ∧
      m.name = "C" ∧ t.contains m.name = false ∧ t.push m = .ok u ∧
      o.visitor = some { returnType := "Value*" } ∧
      (t.header o).result = .ok d ∧ (t'.header o).result = .ok d' ∧
      d.lines = (Header.frame o.toSettings).fill ["struct A;"]
        ["    virtual Value* VisitA(A& node) = 0;"]
        (t.toList.flatMap (Header.structLines o.toSettings)) ∧
      d'.lines = (Header.frame o.toSettings).fill ["struct A;", "struct B;"]
        ["    virtual Value* VisitA(A& node) = 0;", "    virtual Value* VisitB(B& node) = 0;"]
        (t.toList.flatMap (Header.structLines o.toSettings) ++
          ["struct B : public Expr \x7b", "public:", "    const T y;", "    B(T y)",
            "    : y(y)\x7b\x7d", "    Value* Accept(ExprVisitor& visitor) override \x7b",
            "        return visitor.VisitB(*this);", "    \x7d", "\x7d;", ""]) ∧
      (u.header o).result = .error (.conflict ⟨"C", .enclosingNode⟩) := by
  let a : Node :=
    { name := "A"
      fields := [⟨"int", "x", by decide, by decide⟩]
      isIdentifier_name := by decide
      fields_ne_nil := by decide
      nodup_fields := by decide }
  let b : Node :=
    { name := "B"
      fields := [⟨"T", "y", by decide, by decide⟩]
      isIdentifier_name := by decide
      fields_ne_nil := by decide
      nodup_fields := by decide }
  let c : Node :=
    { name := "C"
      fields := [⟨"T", "C", by decide, by decide⟩]
      isIdentifier_name := by decide
      fields_ne_nil := by decide
      nodup_fields := by decide }
  let o : Options :=
    { visitor := some { returnType := "Value*" }
      holds_checks := by decide }
  have hreads : Reads (listEntries ["A: int x"]) [a] := by rfl
  obtain ⟨t, ht, htoList, h⟩ := exists_header_of_reads hreads (by decide) o (by decide)
  have hnames : t.names = ["A"] := by
    rw [names, htoList]
    rfl
  have hne : t.isEmpty = false := by
    rw [isEmpty, Array.isEmpty_eq_false_iff]
    rintro hnil
    rw [toList, hnil] at htoList
    cases htoList
  have hnew : ∀ name, name ≠ "A" → t.contains name = false := by
    intro name hname
    rw [Bool.eq_false_iff, Ne, contains_iff_mem_names, hnames]
    simpa using hname
  obtain ⟨t', hpush, htoList', hgrows, -⟩ := header_push t b o hne (hnew "B" (by decide))
  obtain ⟨u, hpush', -, -, hconflict⟩ := header_push t c o hne (hnew "C" (by decide))
  have hcheck' : t'.check o.toSettings = .ok () := by
    rw [check_eq_ok_iff, htoList', htoList]
    decide
  obtain ⟨d, hd, hlines, hlines'⟩ := hgrows _ (header_eq_ok_iff.2 ⟨hcheck', rfl⟩)
  rw [htoList] at hlines hlines'
  refine ⟨t, t', u, b, c, o, d, _, ht, hne, rfl, hnew "B" (by decide), hpush, rfl,
    hnew "C" (by decide), hpush', rfl, hd, header_eq_ok_iff.2 ⟨hcheck', rfl⟩, ?_, ?_, ?_⟩
  · rw [hlines, htoList]
    rfl
  · rw [hlines', htoList]
    rfl
  · have hclash : Conflict.ofNode? o.toSettings c = some ⟨"C", .enclosingNode⟩ := by decide
    rw [hconflict d hd]
    exact ⟨_, rfl, Conflict.ofNode?_eq_some_iff.1 hclash⟩

end Table

end NodeHeader
