/-
  The header without its visitor.

  A text is edited by replacing parts of it one after another, and keeping all lines between them
  (`Edited`). What a visitor adds to a header is written out as such edits (`scaffolding`): the
  announcements of the nodes, the visitor interface, the members of the base type, and the method
  by which each node accepts a visitor.

  Both headers are made of the same parts in the same order, so the edits are put together part by
  part (`edited_lines`). Without a visitor one check of names less is made, and this is the only
  one that can fail with it (`Table.header_withoutVisitor`).
-/
import NodeHeader.Proofs.Header.DeclaredNames

namespace NodeHeader.Header

open NodeHeader.Cpp (Member Struct)

/-! ### Edited texts -/

/-- Lines that are replaced by others; they are deleted if there are no others. -/
structure Edit where
  old : List String
  new : List String := []
deriving DecidableEq, Repr

/-- Lines become others by edits, one after another. All lines between the edits are kept. -/
inductive Edited : List Edit → List String → List String → Prop
  | nil : Edited [] [] []
  | keep (line : String) {edits : List Edit} {before after : List String}
    (h : Edited edits before after) : Edited edits (line :: before) (line :: after)
  | edit (e : Edit) {edits : List Edit} {before after : List String}
    (h : Edited edits before after) : Edited (e :: edits) (e.old ++ before) (e.new ++ after)

namespace Edited

variable {edits edits' : List Edit} {before before' after after' : List String}

theorem append (h : Edited edits before after) (h' : Edited edits' before' after') :
    Edited (edits ++ edits') (before ++ before') (after ++ after') := by
  induction h with
  | nil => exact h'
  | keep line _ ih => exact .keep line ih
  | edit e _ ih =>
    rw [List.cons_append, List.append_assoc, List.append_assoc]
    exact .edit e ih

theorem refl (lines : List String) : Edited [] lines lines := by
  induction lines with
  | nil => exact .nil
  | cons line rest ih => exact .keep line ih

theorem single (e : Edit) : Edited [e] e.old e.new := by
  have h := Edited.edit e .nil
  rwa [List.append_nil, List.append_nil] at h

theorem flatMap {α : Type} {f : α → List Edit} {g k : α → List String} {xs : List α}
    (h : ∀ x ∈ xs, Edited (f x) (g x) (k x)) :
    Edited (xs.flatMap f) (xs.flatMap g) (xs.flatMap k) := by
  induction xs with
  | nil => exact .nil
  | cons x rest ih =>
    rw [List.forall_mem_cons] at h
    exact h.1.append (ih h.2)

end Edited

/-! ### What a visitor adds -/

/-- The announcements of the nodes, with the empty line after them. -/
def announcementEdits (names : List String) : List Edit :=
  if names.isEmpty then []
  else [{ old := names.map (fun name => "struct " ++ name ++ ";") ++ [""] }]

/-- The visitor interface, with the empty line after it. -/
def interfaceEdit (base : String) (v : Visitor) (names : List String) : Edit where
  old := ["/**", " * @brief Visitor over every " ++ base ++ " node.", " */",
      "struct " ++ base ++ "Visitor \x7b",
      "    virtual ~" ++ base ++ "Visitor() \x7b\x7d"] ++
    names.map (fun name =>
      "    virtual " ++ v.returnType ++ " Visit" ++ name ++ "(" ++ name ++ "& node) = 0;") ++
    ["\x7d;", ""]

/-- The base type loses its members. -/
def baseEdit (base : String) (v : Visitor) : Edit where
  old := ["struct " ++ base ++ " \x7b",
    "    virtual ~" ++ base ++ "() \x7b\x7d",
    "    virtual " ++ v.returnType ++ " Accept(" ++ base ++ "Visitor& visitor) = 0;",
    "\x7d;"]
  new := ["struct " ++ base ++ " \x7b \x7d;"]

/-- The method by which a node accepts a visitor. -/
def acceptEdit (base : String) (v : Visitor) (name : String) : Edit where
  old := ["    " ++ v.returnType ++ " Accept(" ++ base ++ "Visitor& visitor) override \x7b",
    "        " ++ (if v.returnType = "void" then "" else "return ") ++ "visitor.Visit" ++ name ++
      "(*this);",
    "    \x7d"]

/-- All that a visitor adds to a header, in order. -/
def scaffolding (base : String) (v : Visitor) (names : List String) : List Edit :=
  announcementEdits names ++ interfaceEdit base v names :: baseEdit base v ::
    names.map (acceptEdit base v)

/-! ### The parts of a header -/

/-- A struct with a body is its comment, its heading, its members and the end. -/
theorem lines_eq_of_body {c : Struct} (h : c.parent ≠ none ∨ c.members ≠ []) :
    c.lines = c.comment ++ (c.heading ++ c.members.flatMap Member.lines ++ ["\x7d;"]) := by
  have hbody : (c.parent.isNone && c.members.isEmpty) = false := by
    rcases h with h | h <;> simp [h]
  rw [Struct.lines, hbody, if_neg Bool.false_ne_true]

section Parts

variable (base : String) (v : Visitor) (nodes : List Node)

theorem edited_announcements :
    Edited (announcementEdits (nodes.map Node.name)) (spaced (forwardDeclarations nodes)) [] := by
  unfold announcementEdits spaced forwardDeclarations
  cases nodes with
  | nil => exact .nil
  | cons n rest =>
    have h := Edited.single { old := ((n :: rest).map fun n => Struct.forward n.name) ++ [""] }
    simpa [Struct.forward, Function.comp_def] using h

theorem lines_visitorInterface :
    (visitorInterface base nodes v).lines ++ [""] =
      (interfaceEdit base v (nodes.map Node.name)).old := by
  have hbrief : " * @brief " ++ ("Visitor over every " ++ base ++ " node.") =
      " * @brief Visitor over every " ++ base ++ " node." :=
    String.toList_inj.1 (by simp)
  have hheading : "struct " ++ visitorName base ++ " \x7b" = "struct " ++ base ++ "Visitor \x7b" :=
    String.toList_inj.1 (by simp [visitorName])
  have hdestructor : (Member.destructor (visitorName base)).lines =
      ["    virtual ~" ++ base ++ "Visitor() \x7b\x7d"] :=
    congrArg (· :: []) (String.toList_inj.1 (by simp [visitorName, Cpp.indent]))
  have hmethod (n : Node) : (visitMethod v n).lines =
      ["    virtual " ++ v.returnType ++ " Visit" ++ n.name ++ "(" ++ n.name ++ "& node) = 0;"] :=
    congrArg (· :: []) (String.toList_inj.1
      (by simp [visitName, Cpp.Parameter.text, Cpp.indent]))
  have hmethods : (nodes.map (visitMethod v)).flatMap Member.lines =
      (nodes.map Node.name).map fun name =>
        "    virtual " ++ v.returnType ++ " Visit" ++ name ++ "(" ++ name ++ "& node) = 0;" := by
    rw [List.flatMap_map, List.map_map, List.map_eq_flatMap]
    exact List.flatMap_congr fun n _ => hmethod n
  rw [lines_eq_of_body (.inr (List.cons_ne_nil _ _)), interfaceEdit, ← hmethods, ← hheading]
  simp [visitorInterface, Struct.comment, Struct.heading, hdestructor, hbrief]

/-- The comment before the base type is the same with a visitor and without one. -/
theorem lines_baseStruct :
    (baseStruct base (some v)).lines =
      (baseStruct base none).comment ++ (baseEdit base v).old ∧
    (baseStruct base none).lines = (baseStruct base none).comment ++ (baseEdit base v).new := by
  have hdestructor : (Member.destructor base).lines =
      ["    virtual ~" ++ base ++ "() \x7b\x7d"] :=
    congrArg (· :: []) (String.toList_inj.1 (by simp [Cpp.indent]))
  have haccept : (Member.pureMethod v.returnType acceptName (visitorParameter base)).lines =
      ["    virtual " ++ v.returnType ++ " Accept(" ++ base ++ "Visitor& visitor) = 0;"] :=
    congrArg (· :: []) (String.toList_inj.1
      (by simp [acceptName, visitorParameter, visitorName, Cpp.Parameter.text, Cpp.indent]))
  refine ⟨?_, rfl⟩
  rw [lines_eq_of_body (.inr (List.cons_ne_nil _ _))]
  show _ ++ (["struct " ++ base ++ " \x7b"] ++ ((Member.destructor base).lines ++
    ((Member.pureMethod v.returnType acceptName (visitorParameter base)).lines ++ [])) ++ _) = _
  rw [hdestructor, haccept]
  rfl

theorem lines_acceptOverride (n : Node) :
    (acceptOverride base v n).lines = (acceptEdit base v n.name).old := by
  have hfirst : Cpp.indent ++ v.returnType ++ " " ++ acceptName ++ "(" ++
      (visitorParameter base).text ++ ") override \x7b" =
      "    " ++ v.returnType ++ " Accept(" ++ base ++ "Visitor& visitor) override \x7b" :=
    String.toList_inj.1
      (by simp [acceptName, visitorParameter, visitorName, Cpp.Parameter.text, Cpp.indent])
  have hcall : Cpp.indent ++ Cpp.indent ++ visitCall v n =
      "        " ++ (if v.returnType = "void" then "" else "return ") ++ "visitor.Visit" ++ n.name ++
        "(*this);" :=
    String.toList_inj.1 (by simp [visitCall, visitName, Visitor.returnsVoid, Cpp.indent])
  rw [acceptEdit, ← hfirst, ← hcall]
  rfl

theorem edited_baseStruct :
    Edited [baseEdit base v] (baseStruct base (some v)).lines (baseStruct base none).lines := by
  obtain ⟨hwith, hwithout⟩ := lines_baseStruct base v
  rw [hwith, hwithout]
  exact (Edited.refl _).append (.single _)

theorem edited_nodeStruct (n : Node) :
    Edited [acceptEdit base v n.name] (nodeStruct base (some v) n).lines
      (nodeStruct base none n).lines := by
  obtain ⟨front, hwith, hwithout⟩ : ∃ front,
      (nodeStruct base (some v) n).lines =
          front ++ ((acceptOverride base v n).lines ++ ["\x7d;"]) ∧
        (nodeStruct base none n).lines = front ++ ["\x7d;"] := by
    refine ⟨(nodeStruct base none n).heading ++
      (nodeStruct base none n).members.flatMap Member.lines, ?_, ?_⟩
    · rw [lines_eq_of_body (.inl (Option.some_ne_none base))]
      simp [nodeStruct, Struct.comment, Struct.heading]
    · rw [lines_eq_of_body (.inl (Option.some_ne_none base))]
      rfl
  rw [hwith, hwithout, lines_acceptOverride]
  exact (Edited.refl front).append ((Edited.single _).append (.refl _))

end Parts

/-! ### The whole header -/

theorem flatMap_spaced_opening (s : Settings) (nodes : List Node) :
    ((opening s nodes).take 4).flatMap spaced = ((opening s nodes).take 3).flatMap spaced ++
      spaced (s.visitor.elim [] fun _ => forwardDeclarations nodes) := by
  simp [opening]

/-- Without its visitor a header is edited as the scaffolding says. -/
theorem edited_lines {s : Settings} {v : Visitor} (hv : s.visitor = some v) (nodes : List Node) :
    Edited (scaffolding s.base v (nodes.map Node.name)) (lines s nodes)
      (lines { s with visitor := none } nodes) := by
  have hfirst : Edited (announcementEdits (nodes.map Node.name))
      (((opening s nodes).take 4).flatMap spaced)
      (((opening { s with visitor := none } nodes).take 4).flatMap spaced) := by
    rw [flatMap_spaced_opening, flatMap_spaced_opening, hv]
    exact (Edited.refl _).append (edited_announcements nodes)
  have hspaced {edits : List Edit} {c c' : Struct} (h : Edited edits c.lines c'.lines) :
      Edited edits (c.lines ++ [""]) (c'.lines ++ [""]) := by
    have hempty := h.append (.refl [""])
    rwa [List.append_nil] at hempty
  have hnodes : Edited (nodes.map fun n => acceptEdit s.base v n.name)
      ((nodes.map (nodeStruct s.base (some v))).flatMap fun c => c.lines ++ [""])
      ((nodes.map (nodeStruct s.base none)).flatMap fun c => c.lines ++ [""]) := by
    rw [List.map_eq_flatMap, List.flatMap_map, List.flatMap_map]
    exact Edited.flatMap fun n _ => hspaced (edited_nodeStruct s.base v n)
  have hstructs : Edited (interfaceEdit s.base v (nodes.map Node.name) :: baseEdit s.base v ::
      nodes.map fun n => acceptEdit s.base v n.name)
      ((structs s nodes).flatMap fun c => c.lines ++ [""])
      ((structs { s with visitor := none } nodes).flatMap fun c => c.lines ++ [""]) := by
    have hinterface : Edited [interfaceEdit s.base v (nodes.map Node.name)]
        ((visitorInterface s.base nodes v).lines ++ [""]) [] := by
      rw [lines_visitorInterface]
      exact .single _
    have hbase := hspaced (edited_baseStruct s.base v)
    have hall := hinterface.append (hbase.append hnodes)
    rw [structs, hv]
    exact hall
  have hclosing : Edited [] (closing s) (closing { s with visitor := none }) := .refl _
  have hall := (hfirst.append hstructs).append hclosing
  rw [List.append_nil] at hall
  rw [lines_eq_structs, lines_eq_structs, scaffolding, List.map_map]
  exact hall

end NodeHeader.Header

namespace NodeHeader

/-- The options without the visitor. -/
def Options.withoutVisitor (o : Options) : Options where
  toSettings := { o.toSettings with visitor := none }
  holds_checks := by
    intro c hc
    refine o.holds_checks c ?_
    simp only [Settings.checks, List.mem_append, List.mem_cons, Option.toList_none, List.map_nil,
      List.not_mem_nil, or_false] at hc ⊢
    exact hc.imp_right Or.inl

namespace Table

/-- With a visitor one name more is refused, that of the visitor interface. -/
theorem check_iff_withoutVisitor {t : Table} {o : Options} {v : Visitor}
    (hv : o.visitor = some v) :
    t.check o.toSettings = .ok () ↔
      t.check o.withoutVisitor.toSettings = .ok () ∧ Header.visitorName o.base ∉ t.names := by
  have hsome : o.visitor.isSome = true := by rw [hv]; rfl
  have hnames : Header.visitorName o.base ∉ t.names ↔
      ∀ n ∈ t.toList, n.name ≠ Header.visitorName o.base := by
    simp [names]
  rw [check_eq_ok_iff, check_eq_ok_iff, hnames, ← forall₂_and]
  refine forall₂_congr fun n _ => ?_
  rw [Conflict.ofNode?_eq_none_iff, Conflict.ofNode?_eq_none_iff]
  simp only [hsome, true_imp_iff, Options.withoutVisitor, Option.isSome_none, Bool.false_eq_true,
    false_imp_iff, true_and]
  tauto

/-- Turning the visitor off erases exactly the scaffolding. Where there is a header with a visitor,
there is one without it, and it is the same but for the edits: the announcements of the nodes with
their empty line, if there are nodes, the visitor interface with its empty line and the method by
which each node accepts a visitor are deleted, and the base type loses its members. Where there is
a header without the visitor, there is one with it, unless a node has the name of the visitor
interface. -/
theorem header_withoutVisitor (t : Table) (o : Options) (v : Visitor) (hv : o.visitor = some v) :
    (∀ d, (t.header o).result = .ok d →
      ∃ d', (t.header o.withoutVisitor).result = .ok d' ∧
        Header.Edited (Header.scaffolding o.base v t.names) d.lines d'.lines) ∧
    ∀ d', (t.header o.withoutVisitor).result = .ok d' →
      ((∃ d, (t.header o).result = .ok d) ↔ o.base ++ "Visitor" ∉ t.names) := by
  refine ⟨fun d h => ?_, fun d' h' => ?_⟩
  · obtain ⟨hcheck, hlines⟩ := header_eq_ok_iff.1 h
    obtain ⟨hcheck', -⟩ := (check_iff_withoutVisitor hv).1 hcheck
    refine ⟨_, header_eq_ok_iff.2 ⟨hcheck', rfl⟩, ?_⟩
    rw [hlines]
    exact Header.edited_lines hv t.toList
  · obtain ⟨hcheck', -⟩ := header_eq_ok_iff.1 h'
    constructor
    · rintro ⟨d, h⟩
      exact ((check_iff_withoutVisitor hv).1 (header_eq_ok_iff.1 h).1).2
    · intro hname
      have hcheck := (check_iff_withoutVisitor hv).2 ⟨hcheck', hname⟩
      exact ⟨_, header_eq_ok_iff.2 ⟨hcheck, rfl⟩⟩

/-- A node named like the visitor interface stands in the way of a visitor, another one does
not. -/
theorem header_withoutVisitor_interface :
    ∃ (t t' : Table) (o : Options) (v : Visitor) (d : Document),
      (ofList ["A: int x"]).result = .ok t ∧ (ofList ["ExprVisitor: int x"]).result = .ok t' ∧
      o.visitor = some v ∧ v.returnType = "Value*" ∧ (t.header o).result = .ok d ∧
      (∃ d', (t.header o.withoutVisitor).result = .ok d' ∧
        Header.Edited (Header.scaffolding "Expr" v ["A"]) d.lines d'.lines) ∧
      (∃ d', (t'.header o.withoutVisitor).result = .ok d') ∧
      ¬ ∃ d, (t'.header o).result = .ok d := by
  let n (name : String) (h : Cpp.isIdentifier name = true) : Node :=
    { name
      fields := [⟨"int", "x", by decide, by decide⟩]
      isIdentifier_name := h
      fields_ne_nil := by decide
      nodup_fields := by decide }
  let o : Options :=
    { visitor := some { returnType := "Value*" }
      holds_checks := by decide }
  have hreads : Reads (listEntries ["A: int x"]) [n "A" (by decide)] := by rfl
  have hreads' : Reads (listEntries ["ExprVisitor: int x"]) [n "ExprVisitor" (by decide)] := by rfl
  obtain ⟨t, ht, htoList, h⟩ := exists_header_of_reads hreads (by decide) o (by decide)
  obtain ⟨t', ht', htoList', h'⟩ :=
    exists_header_of_reads hreads' (by decide) o.withoutVisitor (by decide)
  have hnames : t.names = ["A"] := by
    rw [names, htoList]
    rfl
  have hnames' : t'.names = ["ExprVisitor"] := by
    rw [names, htoList']
    rfl
  obtain ⟨herases, -⟩ := header_withoutVisitor t o _ rfl
  obtain ⟨-, hrestores⟩ := header_withoutVisitor t' o _ rfl
  refine ⟨t, t', o, _, _, ht, ht', rfl, rfl, h, ?_, ⟨_, h'⟩, fun hd => ?_⟩
  · rw [← hnames]
    exact herases _ h
  · have hfree := (hrestores _ h').1 hd
    rw [hnames'] at hfree
    exact absurd hfree (by decide)

end Table

end NodeHeader
