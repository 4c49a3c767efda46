/-
  Tables through their list of nodes.

  What a table does is said here by the list of its nodes alone: a name is contained if it is
  one of the names of the list (`Table.contains_iff_mem_names`), and a node of a new name is
  put at the end of the list (`Table.exists_push_of_not_mem`).
-/
import NodeHeader.Definition.Table

namespace NodeHeader.Table

theorem toList_empty : empty.toList = [] := rfl

theorem contains_iff_mem_names {t : Table} {name : String} :
    t.contains name = true ↔ name ∈ t.names := by
  rw [contains_iff, names, List.mem_map]
  constructor
  · rintro ⟨i, node, hi, rfl⟩
    exact ⟨node, Array.mem_toList_iff.2 (Array.mem_of_getElem? hi), rfl⟩
  · rintro ⟨node, hnode, rfl⟩
    obtain ⟨i, hi⟩ := List.getElem?_of_mem hnode
    exact ⟨i, node, by rw [← hi, toList, Array.getElem?_toList], rfl⟩

/-- A node of a name that the table does not have is accepted, and stands at the end. -/
theorem exists_push_of_not_mem {t : Table} {node : Node} (h : node.name ∉ t.names) :
    ∃ t', t.push node = .ok t' ∧ t'.toList = t.toList ++ [node] := by
  have hc : ¬ t.contains node.name = true := fun hc => h (contains_iff_mem_names.1 hc)
  refine ⟨_, by rw [push, dif_neg hc], ?_⟩
  simp [toList]

end NodeHeader.Table
