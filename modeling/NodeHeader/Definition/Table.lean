/-
  Tables of nodes.

  A table lists nodes in the order in which they were added, no two of one name,
  and finds a node by its name through an index from names to positions. The
  list and the index are two views of the same nodes: `Table.index_iff` says
  that a name leads to a position exactly when the node at that position has the
  name, so looking up never leaves the list, and `Table.nodup_names` follows.
-/
import NodeHeader.Definition.Node
import Std.Data.HashMap

namespace NodeHeader

/-- Nodes in the order of their addition, with an index by name. -/
structure Table where
  nodes : Array Node
  /-- The position of each name. -/
  index : Std.HashMap String Nat
  index_iff : ∀ (name : String) (i : Nat),
    index[name]? = some i ↔ ∃ node, nodes[i]? = some node ∧ node.name = name

namespace Table

/-- The table without nodes. -/
def empty : Table where
  nodes := #[]
  index := ∅
  index_iff := by simp

/-- The number of nodes. -/
def size (t : Table) : Nat :=
  t.nodes.size

/-- Whether there is no node. -/
def isEmpty (t : Table) : Bool :=
  t.nodes.isEmpty

/-- The nodes in order. -/
def toList (t : Table) : List Node :=
  t.nodes.toList

/-- The names of the nodes, in order. -/
def names (t : Table) : List String :=
  t.toList.map Node.name

/-- Whether a node has the name. -/
def contains (t : Table) (name : String) : Bool :=
  t.index.contains name

theorem lt_size_of_index {t : Table} {name : String} {i : Nat} (h : t.index[name]? = some i) :
    i < t.nodes.size := by
  obtain ⟨node, hi, -⟩ := (t.index_iff name i).1 h
  exact (Array.getElem?_eq_some_iff.1 hi).1

/-- The node of a name. The position that the index gives is always one of the list. -/
def get? (t : Table) (name : String) : Option Node :=
  match h : t.index[name]? with
  | none => none
  | some i =>
    have := lt_size_of_index h
    some t.nodes[i]

theorem contains_iff {t : Table} {name : String} :
    t.contains name = true ↔
      ∃ (i : Nat) (node : Node), t.nodes[i]? = some node ∧ node.name = name := by
  rw [contains, ← Std.HashMap.isSome_getElem?_eq_contains, Option.isSome_iff_exists]
  exact exists_congr fun i => t.index_iff name i

/-- The index stays in step when a node of a new name is appended. -/
theorem index_iff_push {t : Table} {node : Node} (h : ¬ t.contains node.name = true)
    (name : String) (i : Nat) :
    (t.index.insert node.name t.nodes.size)[name]? = some i ↔
      ∃ n, (t.nodes.push node)[i]? = some n ∧ n.name = name := by
  rw [Std.HashMap.getElem?_insert, Array.getElem?_push]
  by_cases hname : node.name = name
  · subst hname
    simp only [BEq.rfl, if_true, Option.some.injEq]
    constructor
    · rintro rfl
      exact ⟨node, by simp, rfl⟩
    · rintro ⟨n, hn, hnn⟩
      by_cases hi : i = t.nodes.size
      · exact hi.symm
      · rw [if_neg hi] at hn
        exact absurd (contains_iff.2 ⟨i, n, hn, hnn⟩) h
  · simp only [beq_iff_eq, hname, if_false, t.index_iff]
    by_cases hi : i = t.nodes.size
    · simp [hi, hname]
    · simp [hi]

/-- The table with one more node at its end. A name that the table has already is refused. -/
def push (t : Table) (node : Node) : Except DeclarationError Table :=
  if h : t.contains node.name = true then .error (.repeatedNode node.name)
  else
    .ok { nodes := t.nodes.push node, index := t.index.insert node.name t.nodes.size,
          index_iff := index_iff_push h }

/-- No two nodes of a table have one name. -/
theorem nodup_names (t : Table) : t.names.Nodup := by
  rw [List.nodup_iff_pairwise_ne, names, List.pairwise_map, List.pairwise_iff_getElem]
  intro i j hi hj hij heq
  have look (k : Nat) (hk : k < t.toList.length) : t.index[(t.toList[k]).name]? = some k :=
    (t.index_iff _ k).2 ⟨t.toList[k], by simp [toList], rfl⟩
  have := look i hi
  rw [heq, look j hj, Option.some.injEq] at this
  omega

end Table

end NodeHeader
