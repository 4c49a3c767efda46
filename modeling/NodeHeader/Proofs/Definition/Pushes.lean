/-
  Tables after any pushes.

  A refused push leaves a table as it was, so nodes can be offered to a table one after another
  whether or not they are accepted (`Table.ofPushes`). What is in the table then is told by the
  offered nodes alone: it is those whose name was not offered before (`Table.firstOfEachName`), in
  order. `Table.toList_offer` says what one push does to the list, and `Table.toList_ofPushes`
  follows by induction on the pushes; the index and the look-ups are read off the list.
-/
import NodeHeader.Proofs.Definition.Table
import Mathlib.Data.List.Induction

namespace NodeHeader.Table

/-! ### Pushes in a row -/

/-- The table after a push: as it was, if the node is refused. -/
def offer (t : Table) (node : Node) : Table :=
  match t.push node with
  | .ok t' => t'
  | .error _ => t

/-- The table after pushes to the empty one, the first of them first. -/
def ofPushes (pushed : List Node) : Table :=
  pushed.foldl offer empty

/-- The nodes whose name no node before them has, in order. -/
def firstOfEachName (nodes : List Node) : List Node :=
  (nodes.zipIdx.filter fun (n, i) => n.name ∉ (nodes.take i).map Node.name).map Prod.fst

theorem firstOfEachName_concat (nodes : List Node) (node : Node) :
    firstOfEachName (nodes ++ [node]) =
      firstOfEachName nodes ++ if node.name ∈ nodes.map Node.name then [] else [node] := by
  have hbefore : (nodes.zipIdx.filter fun (n, i) =>
      decide (n.name ∉ ((nodes ++ [node]).take i).map Node.name)) =
      nodes.zipIdx.filter fun (n, i) => n.name ∉ (nodes.take i).map Node.name := by
    refine List.filter_congr ?_
    rintro ⟨n, i⟩ hn
    have hi : i < nodes.length := by
      have h := List.snd_lt_of_mem_zipIdx hn
      omega
    simp only [List.take_append_of_le_length (Nat.le_of_lt hi)]
  rw [firstOfEachName, List.zipIdx_append, List.filter_append, List.map_append, hbefore]
  congr 1
  by_cases h : node.name ∈ nodes.map Node.name
  · simp [h]
  · simp [h]

theorem map_name_firstOfEachName (nodes : List Node) (name : String) :
    name ∈ (firstOfEachName nodes).map Node.name ↔ name ∈ nodes.map Node.name := by
  induction nodes using List.reverseRecOn with
  | nil => rfl
  | append_singleton nodes node ih =>
    rw [firstOfEachName_concat, List.map_append, List.map_append, List.mem_append,
      List.mem_append, ih]
    -- a name that is left out is there already
    split
    · next h =>
      simp only [List.map_nil, List.not_mem_nil, or_false, List.map_cons, List.mem_singleton]
      exact ⟨Or.inl, fun h' => h'.elim id fun heq => heq ▸ h⟩
    · rfl

/-! ### One push -/

variable {t : Table} {node : Node} {name : String}

/-- A push is refused exactly for a name that the table has. -/
theorem push_eq_error_iff {err : DeclarationError} :
    t.push node = .error err ↔ t.contains node.name = true ∧ err = .repeatedNode node.name := by
  constructor
  · intro h
    by_cases hc : t.contains node.name = true
    · rw [push, dif_pos hc] at h
      exact ⟨hc, (Except.error.inj h).symm⟩
    · rw [push, dif_neg hc] at h
      cases h
  · rintro ⟨hc, rfl⟩
    rw [push, dif_pos hc]

theorem offer_of_contains (h : t.contains node.name = true) : t.offer node = t := by
  rw [offer, push_eq_error_iff.2 ⟨h, rfl⟩]

theorem toList_offer (t : Table) (node : Node) :
    (t.offer node).toList = t.toList ++ if node.name ∈ t.names then [] else [node] := by
  by_cases h : node.name ∈ t.names
  · rw [offer_of_contains (contains_iff_mem_names.2 h), if_pos h, List.append_nil]
  · obtain ⟨t', hpush, htoList⟩ := exists_push_of_not_mem h
    rw [offer, hpush, if_neg h, htoList]

/-! ### Look-ups -/

theorem getElem?_toList (t : Table) (i : Nat) : t.toList[i]? = t.nodes[i]? :=
  Array.getElem?_toList

/-- A name finds the node of the table that has it. -/
theorem get?_eq_some_iff : t.get? name = some node ↔ node ∈ t.toList ∧ node.name = name := by
  unfold get?
  split
  · next h =>
    constructor
    · intro hnone
      cases hnone
    · rintro ⟨hnode, hname⟩
      obtain ⟨i, hi⟩ := List.getElem?_of_mem hnode
      have hindex := (t.index_iff name i).2 ⟨node, (getElem?_toList t i).symm.trans hi, hname⟩
      rw [h] at hindex
      cases hindex
  · next i h =>
    obtain ⟨found, hfound, hname⟩ := (t.index_iff name i).1 h
    obtain ⟨hi, rfl⟩ := Array.getElem?_eq_some_iff.1 hfound
    simp only [Option.some.injEq]
    constructor
    · rintro rfl
      exact ⟨by simp [toList], hname⟩
    · rintro ⟨hnode, hname'⟩
      -- the index knows one position of the name
      obtain ⟨j, hj⟩ := List.getElem?_of_mem hnode
      rw [getElem?_toList] at hj
      have hindex := (t.index_iff name j).2 ⟨node, hj, hname'⟩
      obtain rfl := Option.some.inj (h.symm.trans hindex)
      exact Option.some.inj (hfound.symm.trans hj)

theorem isSome_get? (t : Table) (name : String) : (t.get? name).isSome = t.contains name := by
  rw [Bool.eq_iff_iff, Option.isSome_iff_exists, contains_iff_mem_names, names, List.mem_map]
  exact exists_congr fun node => get?_eq_some_iff

/-- The index has one key for each node. -/
theorem size_index (t : Table) : t.index.size = t.size := by
  have hkeys : t.index.keys.Perm t.names := by
    rw [List.perm_ext_iff_of_nodup t.index.nodup_keys t.nodup_names]
    intro name
    rw [Std.HashMap.mem_keys, ← contains_iff_mem_names]
    rfl
  rw [← Std.HashMap.length_keys, hkeys.length_eq]
  simp [names, toList, size]

/-! ### Any pushes -/

theorem ofPushes_concat (pushed : List Node) (node : Node) :
    ofPushes (pushed ++ [node]) = (ofPushes pushed).offer node := by
  rw [ofPushes, List.foldl_append]
  rfl

theorem toList_ofPushes (pushed : List Node) :
    (ofPushes pushed).toList = firstOfEachName pushed := by
  induction pushed using List.reverseRecOn with
  | nil => rfl
  | append_singleton pushed node ih =>
    have hnames : node.name ∈ (ofPushes pushed).names ↔ node.name ∈ pushed.map Node.name := by
      rw [names, ih, map_name_firstOfEachName]
    rw [ofPushes_concat, toList_offer, firstOfEachName_concat, ih]
    simp only [hnames]

theorem ofPushes_append_cons {pushed : List Node}
    (h : (ofPushes pushed).contains node.name = true) (more : List Node) :
    ofPushes (pushed ++ node :: more) = ofPushes (pushed ++ more) := by
  have hoffer : (ofPushes pushed).offer node = ofPushes pushed := offer_of_contains h
  rw [ofPushes, ofPushes, List.foldl_append, List.foldl_append, List.foldl_cons]
  exact congrArg (fun t => more.foldl offer t) hoffer

/-- After any pushes to the empty table, accepted and refused ones, the table lists the nodes
whose name was not pushed before, in order and of different names, and its index takes a name to
a position exactly if the node there has the name. So the index never leads out of the list,
there are as many keys as nodes, and a look-up gives the one node of the name exactly if the
name is contained. A push is refused, as a repeated node, exactly if the name is contained, and
then it is as if it had not been made, for everything that follows. -/
theorem ofPushes_spec (pushed : List Node) :
    (ofPushes pushed).nodes.toList = firstOfEachName pushed ∧
    ((firstOfEachName pushed).map Node.name).Nodup ∧
    (∀ (name : String) (i : Nat), (ofPushes pushed).index[name]? = some i ↔
      ∃ node, (firstOfEachName pushed)[i]? = some node ∧ node.name = name) ∧
    (∀ (name : String) (i : Nat), (ofPushes pushed).index[name]? = some i →
      i < (ofPushes pushed).nodes.size) ∧
    (ofPushes pushed).size = (ofPushes pushed).index.size ∧
    (∀ name, (ofPushes pushed).contains name = true ↔ ∃ node ∈ pushed, node.name = name) ∧
    (∀ name, ((ofPushes pushed).get? name).isSome = (ofPushes pushed).contains name) ∧
    (∀ name node, (ofPushes pushed).get? name = some node ↔
      node ∈ firstOfEachName pushed ∧ node.name = name) ∧
    (∀ node err, (ofPushes pushed).push node = .error err ↔
      (ofPushes pushed).contains node.name = true ∧ err = .repeatedNode node.name) ∧
    ∀ node, (ofPushes pushed).contains node.name = true →
      ∀ more, ofPushes (pushed ++ node :: more) = ofPushes (pushed ++ more) := by
  have htoList := toList_ofPushes pushed
  have hnodup := (ofPushes pushed).nodup_names
  rw [names, htoList] at hnodup
  refine ⟨htoList, hnodup, fun name i => ?_, fun name i => lt_size_of_index, (size_index _).symm,
    fun name => ?_, isSome_get? _, fun name node => ?_, fun node err => push_eq_error_iff,
    fun node => ofPushes_append_cons⟩
  · rw [(ofPushes pushed).index_iff, ← htoList, getElem?_toList]
  · rw [contains_iff_mem_names, names, htoList, map_name_firstOfEachName, List.mem_map]
  · rw [get?_eq_some_iff, htoList]

/-- A second node `A` is refused, and nothing is known of it afterwards. -/
theorem ofPushes_repeated : ∃ a b a' : Node, a.name = "A" ∧ b.name = "B" ∧ a'.name = "A" ∧
    a ≠ a' ∧ (ofPushes [a, b]).push a' = .error (.repeatedNode "A") ∧
    ofPushes [a, b, a', b] = ofPushes [a, b, b] ∧
    (ofPushes [a, a', b]).nodes.toList = [a, b] ∧ (ofPushes [a, a', b]).index["A"]? = some 0 ∧
    (ofPushes [a, a', b]).get? "A" = some a := by
  let a : Node :=
    { name := "A"
      fields := [⟨"int", "x", by decide, by decide⟩]
      isIdentifier_name := by decide
      fields_ne_nil := by decide
      nodup_fields := by decide }
  let b : Node :=
    { name := "B"
      fields := [⟨"int", "x", by decide, by decide⟩]
      isIdentifier_name := by decide
      fields_ne_nil := by decide
      nodup_fields := by decide }
  let a' : Node :=
    { name := "A"
      fields := [⟨"int", "y", by decide, by decide⟩]
      isIdentifier_name := by decide
      fields_ne_nil := by decide
      nodup_fields := by decide }
  obtain ⟨-, -, -, -, -, hcontains, -, -, hpush, hskip⟩ := ofPushes_spec [a, b]
  have ha : (ofPushes [a, b]).contains "A" = true := (hcontains "A").2 ⟨a, by simp, rfl⟩
  obtain ⟨hnodes, -, hindex, -, -, -, -, hget, -, -⟩ := ofPushes_spec [a, a', b]
  have hfirst : firstOfEachName [a, a', b] = [a, b] := by rfl
  rw [hfirst] at hnodes hindex hget
  exact ⟨a, b, a', rfl, rfl, rfl, by decide, (hpush a' _).2 ⟨ha, rfl⟩, hskip a' ha [b], hnodes,
    (hindex "A" 0).2 ⟨a, rfl, rfl⟩, (hget "A" a).2 ⟨by simp, rfl⟩⟩

end NodeHeader.Table
