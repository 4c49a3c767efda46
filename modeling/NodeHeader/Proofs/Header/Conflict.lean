/-
  What it means that no name is in conflict.

  A table passes the check exactly if each of its nodes does by itself (`Table.check_eq_ok_iff`),
  and a node does if its name is neither that of the base type, nor, with a visitor, that of the
  visitor interface, nor that of one of its fields (`Conflict.ofNode?_eq_none_iff`). Entries that
  spell such nodes, of different names, have a header (`Table.exists_header_of_reads`).
-/
import NodeHeader.Proofs.Definition.Reading
import NodeHeader.Proofs.Header.Generation

namespace NodeHeader

theorem Conflict.ofNode?_eq_none_iff {s : Settings} {n : Node} :
    ofNode? s n = none ↔ n.name ≠ s.base ∧
      (s.visitor.isSome = true → n.name ≠ Header.visitorName s.base) ∧
      n.name ∉ n.fields.map Field.name := by
  unfold ofNode?
  -- one case for each rival, in the order in which they are looked at
  split
  · next hbase => exact iff_of_false (by simp) fun h => h.1 hbase
  split
  · next hvisitor =>
    rw [Bool.and_eq_true, decide_eq_true_eq] at hvisitor
    exact iff_of_false (by simp) fun h => h.2.1 hvisitor.1 hvisitor.2
  · next hbase hvisitor =>
    rw [Bool.and_eq_true, decide_eq_true_eq] at hvisitor
    simp only [List.contains_iff_mem]
    split
    · next hfield => exact iff_of_false (by simp) fun h => h.2.2 hfield
    · next hfield => exact iff_of_true rfl ⟨hbase, fun hv hn => hvisitor ⟨hv, hn⟩, hfield⟩

theorem Table.check_eq_ok_iff {t : Table} {s : Settings} :
    t.check s = .ok () ↔ ∀ n ∈ t.toList, Conflict.ofNode? s n = none := by
  rw [← List.findSome?_eq_none_iff]
  unfold check Conflict.first?
  cases t.toList.findSome? (Conflict.ofNode? s) with
  | none => exact iff_of_true rfl rfl
  | some c => exact iff_of_false nofun nofun

/-- Entries of nodes of different names and without conflicts have a header. -/
theorem Table.exists_header_of_reads {entries : List Entry} {nodes : List Node}
    (hreads : Reads entries nodes) (hnodup : (nodes.map Node.name).Nodup)
    (o : Options) (hfree : ∀ n ∈ nodes, Conflict.ofNode? o.toSettings n = none) :
    ∃ t, (ofEntries entries).result = .ok t ∧ t.toList = nodes ∧
      (t.header o).result = .ok ⟨Header.lines o.toSettings nodes⟩ := by
  obtain ⟨t, ht, rfl⟩ := ofEntries_of_reads hreads hnodup
  exact ⟨t, ht, rfl, header_eq_ok_iff.2 ⟨check_eq_ok_iff.2 hfree, rfl⟩⟩

end NodeHeader
