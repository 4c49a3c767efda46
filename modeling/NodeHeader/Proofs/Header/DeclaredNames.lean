/-
  The names that the structs of a header declare.

  A struct declares once if its members have different names and none of them has the name of
  the struct itself (`Cpp.Struct.DeclaresOnce`). The structs of a header are written out between
  its first paragraphs and its closing (`Header.lines_eq_structs`), and for each kind of them it
  is said when it declares once: the visitor interface, the base type and the nodes.

  The check of names rules out all clashes between names that are given, but not those with the
  names that the visitor brings along. `Table.declaresOnce_structs_iff` tells exactly which
  headers are free of them, and `Table.not_declaresOnce_accept` is one that is not.
-/
import NodeHeader.Proofs.Cpp.Struct
import NodeHeader.Proofs.Header.Conflict
import Mathlib.Data.List.Nodup

namespace NodeHeader

open NodeHeader.Cpp (Member Struct)

/-! ### Structs -/

namespace Cpp.Struct

/-- Each name is declared by one member only, and none is the name of the struct. -/
structure DeclaresOnce (s : Struct) : Prop where
  nodup : s.declaredNames.Nodup
  name_not_mem : s.name ∉ s.declaredNames

end Cpp.Struct

namespace Header

/-- The structs of a header, in order: the visitor interface if there is a visitor, the base
type, and the nodes. -/
def structs (s : Settings) (nodes : List Node) : List Struct :=
  (s.visitor.toList.map fun v => visitorInterface s.base nodes v) ++
    baseStruct s.base s.visitor :: nodes.map (nodeStruct s.base s.visitor)

theorem spaced_lines (s : Struct) : spaced s.lines = s.lines ++ [""] := by
  rw [spaced, if_neg]
  simpa using s.lines_ne_nil

/-- A header is its first paragraphs, which end with the announcements of the nodes, then its
structs, and its closing. -/
theorem lines_eq_structs (s : Settings) (nodes : List Node) :
    lines s nodes = ((opening s nodes).take 4).flatMap spaced ++
      (structs s nodes).flatMap (fun c => c.lines ++ [""]) ++ closing s := by
  have hnodes : (nodes.map (nodeParagraph s)).flatMap spaced =
      (nodes.map (nodeStruct s.base s.visitor)).flatMap fun c => c.lines ++ [""] := by
    rw [List.flatMap_map, List.flatMap_map]
    exact List.flatMap_congr fun n _ => spaced_lines _
  have hdrop : ((opening s nodes).drop 4).flatMap spaced =
      ((s.visitor.toList.map fun v => visitorInterface s.base nodes v) ++
        [baseStruct s.base s.visitor]).flatMap fun c => c.lines ++ [""] := by
    unfold opening
    cases s.visitor with
    | none =>
      show spaced [] ++ (spaced (baseStruct s.base none).lines ++ []) = _
      rw [spaced_lines]
      rfl
    | some v =>
      show spaced (visitorInterface s.base nodes v).lines ++
        (spaced (baseStruct s.base (some v)).lines ++ []) = _
      rw [spaced_lines, spaced_lines]
      rfl
  have hopening : (opening s nodes).flatMap spaced = ((opening s nodes).take 4).flatMap spaced ++
      ((opening s nodes).drop 4).flatMap spaced := by
    rw [← List.flatMap_append, List.take_append_drop]
  rw [lines, paragraphs, List.flatMap_append, hopening, hdrop, hnodes, structs]
  simp only [List.flatMap_append, List.flatMap_cons, List.flatMap_nil, List.append_nil,
    List.append_assoc]

theorem forall_mem_spaced {P : String → Prop} (hempty : P "") {paragraph : List String}
    (h : ∀ line ∈ paragraph, P line) : ∀ line ∈ spaced paragraph, P line := by
  unfold spaced
  split
  · exact List.forall_mem_nil _
  · exact List.forall_mem_append.2 ⟨h, List.forall_mem_singleton.2 hempty⟩

theorem forall_mem_flatMap_lines {P : String → Prop} (hempty : P "") {cs : List Struct}
    (h : ∀ c ∈ cs, ∀ line ∈ c.lines, P line) :
    ∀ line ∈ cs.flatMap (fun c => c.lines ++ [""]), P line := by
  intro line hline
  obtain ⟨c, hc, hline⟩ := List.mem_flatMap.1 hline
  rcases List.mem_append.1 hline with hline | hline
  · exact h c hc line hline
  · rwa [List.mem_singleton.1 hline]

/-- What holds of every line of each part, and of the empty line, holds of every line of a
header. -/
theorem forall_mem_lines {P : String → Prop} {s : Settings} {nodes : List Node} (hempty : P "")
    (hfirst : ∀ paragraph ∈ (opening s nodes).take 4, ∀ line ∈ paragraph, P line)
    (hstructs : ∀ c ∈ structs s nodes, ∀ line ∈ c.lines, P line)
    (hclosing : ∀ line ∈ closing s, P line) : ∀ line ∈ lines s nodes, P line := by
  rw [lines_eq_structs, List.forall_mem_append, List.forall_mem_append]
  refine ⟨⟨fun line hline => ?_, forall_mem_flatMap_lines hempty hstructs⟩, hclosing⟩
  obtain ⟨paragraph, hparagraph, hline⟩ := List.mem_flatMap.1 hline
  exact forall_mem_spaced hempty (hfirst paragraph hparagraph) line hline

/-! ### What each kind of struct declares -/

theorem declaredNames_visitorInterface (base : String) (nodes : List Node) (v : Visitor) :
    (visitorInterface base nodes v).declaredNames = nodes.map fun n => visitName n.name := by
  have hmethods : (nodes.map (visitMethod v)).filterMap Member.declaredName? =
      nodes.map fun n => visitName n.name := by
    rw [List.filterMap_map]
    exact congrFun List.filterMap_eq_map nodes
  exact hmethods

theorem declaredNames_baseStruct (base : String) (v : Option Visitor) :
    (baseStruct base v).declaredNames = v.toList.map fun _ => acceptName := by
  cases v <;> rfl

theorem declaredNames_nodeStruct (base : String) (v : Option Visitor) (n : Node) :
    (nodeStruct base v n).declaredNames =
      n.fields.map Field.name ++ v.toList.map fun _ => acceptName := by
  have hfields : (n.fields.map fun f => Member.field f.typeName f.name).filterMap
      Member.declaredName? = n.fields.map Field.name := by
    rw [List.filterMap_map]
    exact congrFun List.filterMap_eq_map n.fields
  rw [Struct.declaredNames, nodeStruct, List.filterMap_append, hfields]
  cases v <;> rfl

theorem visitName_injective : Function.Injective visitName := by
  intro a b h
  exact String.append_right_inj _ |>.1 h

theorem declaresOnce_visitorInterface_iff {base : String} {nodes : List Node} {v : Visitor}
    (hnodup : (nodes.map Node.name).Nodup) :
    (visitorInterface base nodes v).DeclaresOnce ↔
      ∀ n ∈ nodes, visitName n.name ≠ visitorName base := by
  have hvisits : (nodes.map fun n => visitName n.name).Nodup := by
    have h := hnodup.map visitName_injective
    rwa [List.map_map] at h
  have hname : (visitorInterface base nodes v).name = visitorName base := rfl
  constructor
  · rintro ⟨-, hmem⟩ n hn heq
    rw [hname, declaredNames_visitorInterface, ← heq] at hmem
    exact hmem (List.mem_map_of_mem hn)
  · intro h
    refine ⟨by rwa [declaredNames_visitorInterface], ?_⟩
    rw [hname, declaredNames_visitorInterface, List.mem_map]
    rintro ⟨n, hn, heq⟩
    exact h n hn heq

theorem declaresOnce_baseStruct_iff {base : String} {v : Option Visitor} :
    (baseStruct base v).DeclaresOnce ↔ (v.isSome = true → base ≠ acceptName) := by
  have hname : (baseStruct base v).name = base := rfl
  constructor
  · rintro ⟨-, hmem⟩ hv rfl
    obtain ⟨w, rfl⟩ := Option.isSome_iff_exists.1 hv
    rw [hname, declaredNames_baseStruct] at hmem
    exact hmem List.mem_cons_self
  · intro h
    cases v with
    | none => exact ⟨List.nodup_nil, List.not_mem_nil⟩
    | some w =>
      refine ⟨List.nodup_singleton _, ?_⟩
      rw [hname, declaredNames_baseStruct]
      simpa using h rfl

theorem declaresOnce_nodeStruct_iff {base : String} {v : Option Visitor} {n : Node}
    (hfields : n.name ∉ n.fields.map Field.name) :
    (nodeStruct base v n).DeclaresOnce ↔
      (v.isSome = true → n.name ≠ acceptName ∧ acceptName ∉ n.fields.map Field.name) := by
  have hname : (nodeStruct base v n).name = n.name := rfl
  constructor
  · rintro ⟨hnodup, hmem⟩ hv
    obtain ⟨w, rfl⟩ := Option.isSome_iff_exists.1 hv
    rw [declaredNames_nodeStruct] at hnodup
    rw [hname, declaredNames_nodeStruct] at hmem
    refine ⟨?_, fun haccept => ?_⟩
    · rintro heq
      rw [heq] at hmem
      exact hmem (List.mem_append_right _ List.mem_cons_self)
    · exact (List.nodup_append.1 hnodup).2.2 _ haccept _ List.mem_cons_self rfl
  · intro h
    cases v with
    | none =>
      have hnames : (nodeStruct base none n).declaredNames = n.fields.map Field.name := by
        rw [declaredNames_nodeStruct]
        exact List.append_nil _
      exact ⟨by rw [hnames]; exact n.nodup_fields, by rw [hnames]; exact hfields⟩
    | some w =>
      obtain ⟨hne, haccept⟩ := h rfl
      have hnames : (nodeStruct base (some w) n).declaredNames =
          n.fields.map Field.name ++ [acceptName] := declaredNames_nodeStruct base (some w) n
      refine ⟨?_, ?_⟩
      · rw [hnames, List.nodup_append]
        refine ⟨n.nodup_fields, List.nodup_singleton _, fun a ha b hb hab => ?_⟩
        rw [List.mem_singleton.1 hb] at hab
        exact haccept (hab ▸ ha)
      · rw [hnames, hname, List.mem_append, List.mem_singleton]
        exact fun hmem => hmem.elim hfields hne

end Header

namespace Table

/-- The structs of a header, as they are written in it, all declare once exactly if there is no
visitor, or no name takes one that the visitor needs: neither the base type nor a node nor a
field is named `Accept`, and no node has a method of the name of the visitor interface. -/
theorem declaresOnce_structs_iff (t : Table) (o : Options) (d : Document)
    (h : (t.header o).result = .ok d) :
    d.lines = ((Header.opening o.toSettings t.toList).take 4).flatMap Header.spaced ++
      (Header.structs o.toSettings t.toList).flatMap (fun c => c.lines ++ [""]) ++
      Header.closing o.toSettings ∧
    ((∀ c ∈ Header.structs o.toSettings t.toList, c.DeclaresOnce) ↔
      (o.visitor.isSome = true → o.base ≠ Header.acceptName ∧
        ∀ n ∈ t.toList, n.name ≠ Header.acceptName ∧
          Header.acceptName ∉ n.fields.map Field.name ∧
          Header.visitName n.name ≠ Header.visitorName o.base)) := by
  obtain ⟨hcheck, hlines⟩ := header_eq_ok_iff.1 h
  refine ⟨hlines.trans (Header.lines_eq_structs _ _), ?_⟩
  have hfields : ∀ n ∈ t.toList, n.name ∉ n.fields.map Field.name := fun n hn =>
    (Conflict.ofNode?_eq_none_iff.1 (check_eq_ok_iff.1 hcheck n hn)).2.2
  have hstructs : (∀ c ∈ Header.structs o.toSettings t.toList, c.DeclaresOnce) ↔
      (∀ v, o.visitor = some v → ∀ n ∈ t.toList,
        Header.visitName n.name ≠ Header.visitorName o.base) ∧
      (o.visitor.isSome = true → o.base ≠ Header.acceptName) ∧
      ∀ n ∈ t.toList, o.visitor.isSome = true →
        n.name ≠ Header.acceptName ∧ Header.acceptName ∉ n.fields.map Field.name := by
    simp only [Header.structs, List.forall_mem_append, List.forall_mem_cons, List.forall_mem_map,
      Option.mem_toList]
    refine and_congr ?_ (and_congr Header.declaresOnce_baseStruct_iff ?_)
    · exact forall₂_congr fun v _ => Header.declaresOnce_visitorInterface_iff t.nodup_names
    · exact forall₂_congr fun n hn => Header.declaresOnce_nodeStruct_iff (hfields n hn)
  rw [hstructs]
  constructor
  · rintro ⟨hvisits, hbase, hnodes⟩ hv
    obtain ⟨v, hv'⟩ := Option.isSome_iff_exists.1 hv
    exact ⟨hbase hv, fun n hn =>
      ⟨(hnodes n hn hv).1, (hnodes n hn hv).2, hvisits v hv' n hn⟩⟩
  · intro hfree
    refine ⟨fun v hv n hn => ?_, fun hv => (hfree hv).1, fun n hn hv => ?_⟩
    · exact ((hfree (Option.isSome_iff_exists.2 ⟨v, hv⟩)).2 n hn).2.2
    · exact ⟨((hfree hv).2 n hn).1, ((hfree hv).2 n hn).2.1⟩

/-- With the base type `Visit`, the method for a node `Visitor` has the name of the interface that
declares it. -/
theorem not_declaresOnce_visitor : ∃ (t : Table) (o : Options) (d : Document),
    (ofList ["Visitor: int x"]).result = .ok t ∧
      o.toSettings = { base := "Visit", visitor := some {} } ∧ (t.header o).result = .ok d ∧
      ["struct VisitVisitor \x7b", "    virtual ~VisitVisitor() \x7b\x7d",
        "    virtual void VisitVisitor(Visitor& node) = 0;"] <:+: d.lines ∧
      ¬ ∀ c ∈ Header.structs o.toSettings t.toList, c.DeclaresOnce := by
  let n : Node :=
    { name := "Visitor"
      fields := [⟨"int", "x", by decide, by decide⟩]
      isIdentifier_name := by decide
      fields_ne_nil := by decide
      nodup_fields := by decide }
  let o : Options :=
    { base := "Visit", visitor := some {}
      holds_checks := by decide }
  have hreads : Reads (listEntries ["Visitor: int x"]) [n] := by rfl
  obtain ⟨t, ht, htoList, h⟩ := exists_header_of_reads hreads (by decide) o (by decide)
  refine ⟨t, o, _, ht, rfl, h, by decide, fun hall => ?_⟩
  have hfree := ((declaresOnce_structs_iff t o _ h).2.1 hall rfl).2 n (by simp [htoList])
  exact absurd rfl hfree.2.2

/-- A field named `Accept` stands beside the method of this name in the struct of its node. -/
theorem not_declaresOnce_accept : ∃ (t : Table) (o : Options) (d : Document),
    (ofList ["A: int Accept"]).result = .ok t ∧ o.toSettings = { visitor := some {} } ∧
      (t.header o).result = .ok d ∧
      ["struct A : public Expr \x7b", "public:", "    const int Accept;", "    A(int Accept)",
        "    : Accept(Accept)\x7b\x7d", "    void Accept(ExprVisitor& visitor) override \x7b"]
        <:+: d.lines ∧
      ¬ ∀ c ∈ Header.structs o.toSettings t.toList, c.DeclaresOnce := by
  let n : Node :=
    { name := "A"
      fields := [⟨"int", "Accept", by decide, by decide⟩]
      isIdentifier_name := by decide
      fields_ne_nil := by decide
      nodup_fields := by decide }
  let o : Options :=
    { visitor := some {}
      holds_checks := by decide }
  have hreads : Reads (listEntries ["A: int Accept"]) [n] := by rfl
  obtain ⟨t, ht, htoList, h⟩ := exists_header_of_reads hreads (by decide) o (by decide)
  refine ⟨t, o, _, ht, rfl, h, by decide, fun hall => ?_⟩
  have hn : (Header.nodeStruct o.base o.visitor n).DeclaresOnce :=
    hall _ (by simp [Header.structs, htoList])
  exact ((Header.declaresOnce_nodeStruct_iff (by decide)).1 hn rfl).2 (by decide)

end Table

end NodeHeader
