/-
  What reading a list of entries gives.

  `FaultAt` says what can be wrong with the entry at a position: it spells no node, or it
  spells a node of a name that an entry before it has. A reading stops at the first fault
  and with the error that this fault calls for (`Table.ofEntries_eq_error_iff`), and without
  a fault it gives the nodes of all entries in order (`Table.ofEntries_of_reads`).

  The loop keeps two maps, the table and the line of each name. `Reading.After` is the
  invariant that ties both to the entries already read; every step keeps it
  (`Reading.step_of_no_fault`), so the table never refuses a node here, and whatever the map
  of lines knows comes from an earlier entry (`Reading.step_of_fault`).
-/
import NodeHeader.Definition.Reading
import NodeHeader.Proofs.Definition.Refusal
import NodeHeader.Proofs.Definition.Table

namespace NodeHeader

/-! ### What entries call for -/

/-- The entries spell these nodes, one each and in this order. -/
def Reads (entries : List Entry) (nodes : List Node) : Prop :=
  entries.map Entry.parse = nodes.map .ok

/-- What is wrong with the entry at a position, and the error that this calls for. -/
inductive FaultAt (entries : List Entry) (i : Nat) : DefinitionError → Prop
  /-- The entry spells no node. -/
  | refused {e : Entry} {err : DefinitionError} (he : entries[i]? = some e)
    (h : e.parse = .error err) : FaultAt entries i err
  /-- The entry spells a node of a name that an earlier entry has. -/
  | repeated {e d : Entry} {node first : Node} {j : Nat} (he : entries[i]? = some e)
    (h : e.parse = .ok node) (hj : j < i) (hd : entries[j]? = some d)
    (hfirst : d.parse = .ok first) (hname : first.name = node.name) :
    FaultAt entries i (.repeatedNode e.line node.name d.line)

/-- The fault at the least position that has one. -/
structure FirstFault (entries : List Entry) (i : Nat) (err : DefinitionError) : Prop where
  faultAt : FaultAt entries i err
  not_faultAt_of_lt : ∀ k < i, ∀ err', ¬ FaultAt entries k err'

namespace Reads

theorem unique {entries : List Entry} {nodes nodes' : List Node} (h : Reads entries nodes)
    (h' : Reads entries nodes') : nodes' = nodes := by
  have heq : nodes'.map (.ok : Node → Except DefinitionError Node) = nodes.map .ok :=
    h'.symm.trans h
  exact (List.map_inj_right fun _ _ => Except.ok.inj).1 heq

theorem getElem?_eq {entries : List Entry} {nodes : List Node} (h : Reads entries nodes)
    {i : Nat} {e : Entry} (he : entries[i]? = some e) :
    ∃ node, nodes[i]? = some node ∧ e.parse = .ok node := by
  have hi := congrArg (·[i]?) h
  simp only [List.getElem?_map, he, Option.map_some] at hi
  obtain ⟨node, hnode, hparse⟩ := Option.map_eq_some_iff.1 hi.symm
  exact ⟨node, hnode, hparse.symm⟩

theorem append_singleton {entries : List Entry} {nodes : List Node} (h : Reads entries nodes)
    {e : Entry} {node : Node} (he : e.parse = .ok node) :
    Reads (entries ++ [e]) (nodes ++ [node]) := by
  unfold Reads at h ⊢
  simp [h, he]

end Reads

/-- Entries that spell nodes of different names are without a fault. -/
theorem not_faultAt_of_reads {entries : List Entry} {nodes : List Node}
    (h : Reads entries nodes) (hnodup : (nodes.map Node.name).Nodup) (i : Nat)
    (err : DefinitionError) : ¬ FaultAt entries i err := by
  rintro (⟨he, herr⟩ | ⟨he, hnode, hj, hd, hfirst, hname⟩)
  · obtain ⟨node, -, hok⟩ := h.getElem?_eq he
    rw [hok] at herr
    cases herr
  · obtain ⟨node, hi, hok⟩ := h.getElem?_eq he
    obtain ⟨first, hj', hok'⟩ := h.getElem?_eq hd
    obtain rfl := Except.ok.inj (hok.symm.trans hnode)
    obtain rfl := Except.ok.inj (hok'.symm.trans hfirst)
    -- two positions of one name
    obtain ⟨hilt, hi⟩ := List.getElem?_eq_some_iff.1 hi
    obtain ⟨hjlt, hj'⟩ := List.getElem?_eq_some_iff.1 hj'
    rw [List.nodup_iff_pairwise_ne, List.pairwise_map, List.pairwise_iff_getElem] at hnodup
    have hne := hnodup _ _ hjlt hilt hj
    rw [hi, hj'] at hne
    exact hne hname

/-- What stands after a position does not matter to the faults up to it. -/
theorem faultAt_append_iff {entries more : List Entry} {i : Nat} (hi : i < entries.length)
    {err : DefinitionError} : FaultAt (entries ++ more) i err ↔ FaultAt entries i err := by
  have look : ∀ k ≤ i, (entries ++ more)[k]? = entries[k]? := fun k hk =>
    List.getElem?_append_left (by omega)
  have hlook := look i (Nat.le_refl i)
  constructor
  · rintro (⟨he, h⟩ | ⟨he, h, hj, hd, hfirst, hname⟩)
    · exact .refused (hlook ▸ he) h
    · exact .repeated (hlook ▸ he) h hj (look _ (Nat.le_of_lt hj) ▸ hd) hfirst hname
  · rintro (⟨he, h⟩ | ⟨he, h, hj, hd, hfirst, hname⟩)
    · exact .refused (hlook.trans he) h
    · exact .repeated (hlook.trans he) h hj ((look _ (Nat.le_of_lt hj)).trans hd) hfirst hname

theorem firstFault_append_iff {entries more : List Entry} {i : Nat} (hi : i < entries.length)
    {err : DefinitionError} : FirstFault (entries ++ more) i err ↔ FirstFault entries i err := by
  constructor
  · rintro ⟨h, hlt⟩
    exact ⟨(faultAt_append_iff hi).1 h, fun k hk err' hk' =>
      hlt k hk err' ((faultAt_append_iff (by omega)).2 hk')⟩
  · rintro ⟨h, hlt⟩
    exact ⟨(faultAt_append_iff hi).2 h, fun k hk err' hk' =>
      hlt k hk err' ((faultAt_append_iff (by omega)).1 hk')⟩

theorem FaultAt.lt_length {entries : List Entry} {i : Nat} {err : DefinitionError}
    (h : FaultAt entries i err) : i < entries.length := by
  obtain ⟨he, -⟩ | ⟨he, -⟩ := h <;> exact (List.getElem?_eq_some_iff.1 he).1

theorem exists_firstFault {entries : List Entry} {i : Nat} {err : DefinitionError}
    (h : FaultAt entries i err) : ∃ i err, FirstFault entries i err := by
  induction i using Nat.strongRecOn generalizing err with
  | _ i ih =>
    by_cases hlt : ∃ k < i, ∃ err', FaultAt entries k err'
    · obtain ⟨k, hk, err', h'⟩ := hlt
      exact ih k hk h'
    · exact ⟨i, err, h, fun k hk err' h' => hlt ⟨k, hk, err', h'⟩⟩

/-- What comes after nodes of different names is the first that can be at fault. -/
theorem firstFault_of_reads {done rest : List Entry} {nodes : List Node} {err : DefinitionError}
    (hreads : Reads done nodes) (hnodup : (nodes.map Node.name).Nodup)
    (h : FaultAt (done ++ rest) done.length err) :
    FirstFault (done ++ rest) done.length err where
  faultAt := h
  not_faultAt_of_lt k hk err' hk' := by
    rw [faultAt_append_iff hk] at hk'
    exact not_faultAt_of_reads hreads hnodup k err' hk'

/-! ### One step -/

namespace Reading

/-- What a reading knows after entries: the table holds their nodes, and the line of a name
is that of the entry that spells its node. -/
structure After (r : Reading) (done : List Entry) : Prop where
  reads : Reads done r.table.toList
  lineOf_eq_some_iff : ∀ name line, r.lineOf[name]? = some line ↔
    ∃ d ∈ done, ∃ node, d.parse = .ok node ∧ node.name = name ∧ d.line = line

theorem after_nil : ({} : Reading).After [] where
  reads := rfl
  lineOf_eq_some_iff := by simp

/-- A step without what it tells. -/
theorem result_step (r : Reading) (e : Entry) :
    (r.step e).result = e.parse.bind fun node =>
      match r.lineOf[node.name]? with
      | some firstLine => .error (.repeatedNode e.line node.name firstLine)
      | none => ((r.table.push node).mapError (.invalid e.line e.trimmed)).map fun table =>
          { table, lineOf := r.lineOf.insert node.name e.line } := by
  rw [step, Traced.result_bind]
  congr 1
  funext node
  cases r.lineOf[node.name]? with
  | some firstLine => rfl
  | none =>
    rw [Traced.result_bind, Traced.tell, Except.bind, Traced.result_bind, Traced.ofExcept]
    cases r.table.push node <;> rfl

variable {r : Reading} {done : List Entry} {e : Entry} {rest : List Entry}

theorem After.mem_names_iff (h : r.After done) {name : String} :
    name ∈ r.table.names ↔ ∃ d ∈ done, ∃ node, d.parse = .ok node ∧ node.name = name := by
  rw [Table.names, List.mem_map]
  constructor
  · rintro ⟨node, hnode, rfl⟩
    have hmem : (Except.ok node : Except DefinitionError Node) ∈ done.map Entry.parse := by
      rw [h.reads]
      exact List.mem_map_of_mem hnode
    obtain ⟨d, hd, hparse⟩ := List.mem_map.1 hmem
    exact ⟨d, hd, node, hparse, rfl⟩
  · rintro ⟨d, hd, node, hparse, rfl⟩
    have hmem : (Except.ok node : Except DefinitionError Node) ∈ r.table.toList.map .ok := by
      rw [← h.reads, ← hparse]
      exact List.mem_map_of_mem hd
    obtain ⟨n, hn, heq⟩ := List.mem_map.1 hmem
    exact ⟨n, hn, congrArg Node.name (Except.ok.inj heq)⟩

theorem After.mem_names_iff_lineOf (h : r.After done) {name : String} :
    name ∈ r.table.names ↔ ∃ line, r.lineOf[name]? = some line := by
  rw [h.mem_names_iff]
  constructor
  · rintro ⟨d, hd, node, hparse, hname⟩
    exact ⟨d.line, (h.lineOf_eq_some_iff name d.line).2 ⟨d, hd, node, hparse, hname, rfl⟩⟩
  · rintro ⟨line, hline⟩
    obtain ⟨d, hd, node, hparse, hname, -⟩ := (h.lineOf_eq_some_iff name line).1 hline
    exact ⟨d, hd, node, hparse, hname⟩

theorem getElem?_lt_length_iff {d : Entry} :
    (∃ j < done.length, (done ++ e :: rest)[j]? = some d) ↔ d ∈ done := by
  constructor
  · rintro ⟨j, hj, hd⟩
    rw [List.getElem?_append_left hj] at hd
    exact List.mem_of_getElem? hd
  · intro hd
    obtain ⟨j, hj⟩ := List.getElem?_of_mem hd
    have hlt : j < done.length := (List.getElem?_eq_some_iff.1 hj).1
    exact ⟨j, hlt, by rw [List.getElem?_append_left hlt, hj]⟩

theorem getElem?_length : (done ++ e :: rest)[done.length]? = some e := by
  simp

/-- An entry without a fault is taken in: the table accepts its node. -/
theorem step_of_no_fault (h : r.After done)
    (hfault : ∀ err, ¬ FaultAt (done ++ e :: rest) done.length err) :
    ∃ r', (r.step e).result = .ok r' ∧ r'.After (done ++ [e]) := by
  cases hparse : e.parse with
  | error err => exact absurd (.refused getElem?_length hparse) (hfault err)
  | ok node =>
    -- neither map knows the name: an entry that gave it would be a fault
    have hnew : node.name ∉ r.table.names := by
      intro hmem
      obtain ⟨d, hd, first, hfirst, hname⟩ := h.mem_names_iff.1 hmem
      obtain ⟨j, hj, hjd⟩ : ∃ j < done.length, (done ++ e :: rest)[j]? = some d :=
        getElem?_lt_length_iff.2 hd
      exact hfault _ (.repeated getElem?_length hparse hj hjd hfirst hname)
    have hline : r.lineOf[node.name]? = none := by
      cases hl : r.lineOf[node.name]? with
      | none => rfl
      | some line => exact absurd (h.mem_names_iff_lineOf.2 ⟨line, hl⟩) hnew
    obtain ⟨t, hpush, htoList⟩ := Table.exists_push_of_not_mem hnew
    refine ⟨{ table := t, lineOf := r.lineOf.insert node.name e.line }, ?_, ?_, ?_⟩
    · rw [result_step, hparse]
      simp only [Except.bind, hline, hpush]
      rfl
    · simp only [htoList]
      exact h.reads.append_singleton hparse
    · intro name line
      rw [Std.HashMap.getElem?_insert]
      by_cases hname : node.name = name
      · -- the name is new, so only the new entry has it
        subst hname
        simp only [BEq.rfl, if_true, Option.some.injEq]
        constructor
        · rintro rfl
          exact ⟨e, by simp, node, hparse, rfl, rfl⟩
        · rintro ⟨d, hd, n, hn, hnn, rfl⟩
          rcases List.mem_append.1 hd with hd | hd
          · exact absurd (h.mem_names_iff.2 ⟨d, hd, n, hn, hnn⟩) hnew
          · rw [List.mem_singleton.1 hd]
      · simp only [beq_iff_eq, hname, if_false, h.lineOf_eq_some_iff]
        constructor
        · rintro ⟨d, hd, hrest⟩
          exact ⟨d, List.mem_append_left _ hd, hrest⟩
        · rintro ⟨d, hd, n, hn, hnn, hl⟩
          rcases List.mem_append.1 hd with hd | hd
          · exact ⟨d, hd, n, hn, hnn, hl⟩
          · rw [List.mem_singleton.1 hd, hparse] at hn
            obtain rfl := Except.ok.inj hn
            exact absurd hnn hname

/-- An entry with a fault stops the reading with the error that the fault calls for. -/
theorem step_of_fault (h : r.After done) {err : DefinitionError}
    (hfault : FaultAt (done ++ e :: rest) done.length err) : (r.step e).result = .error err := by
  obtain ⟨he, hparse⟩ | ⟨he, hparse, hj, hd, hfirst, hname⟩ := hfault
  · obtain rfl := Option.some.inj (getElem?_length.symm.trans he)
    rw [result_step, hparse]
    rfl
  · obtain rfl := Option.some.inj (getElem?_length.symm.trans he)
    have hline := (h.lineOf_eq_some_iff _ _).2
      ⟨_, getElem?_lt_length_iff.1 ⟨_, hj, hd⟩, _, hfirst, hname, rfl⟩
    rw [result_step, hparse]
    simp only [Except.bind, hline]

/-! ### A whole reading -/

theorem result_run_cons (r : Reading) (e : Entry) (rest : List Entry) :
    (r.run (e :: rest)).result = (r.step e).result.bind fun r' => (r'.run rest).result :=
  Traced.result_bind _ _

theorem run_of_no_fault {entries : List Entry} (h : r.After done)
    (hfault : ∀ i err, done.length ≤ i → ¬ FaultAt (done ++ entries) i err) :
    ∃ r', (r.run entries).result = .ok r' ∧ r'.After (done ++ entries) := by
  induction entries generalizing r done with
  | nil => exact ⟨r, rfl, by simpa using h⟩
  | cons e rest ih =>
    obtain ⟨r', hstep, h'⟩ := step_of_no_fault h fun err => hfault _ err (Nat.le_refl _)
    have happ : done ++ e :: rest = (done ++ [e]) ++ rest := by simp
    obtain ⟨r'', hrun, h''⟩ := ih h' fun i err hi => by
      rw [← happ]
      exact hfault i err (by simp only [List.length_append, List.length_singleton] at hi; omega)
    refine ⟨r'', ?_, happ ▸ h''⟩
    rw [result_run_cons, hstep]
    exact hrun

theorem run_of_firstFault {entries : List Entry} (h : r.After done) {i : Nat}
    (hi : done.length ≤ i) {err : DefinitionError} (hfault : FirstFault (done ++ entries) i err) :
    (r.run entries).result = .error err := by
  induction entries generalizing r done with
  | nil =>
    have hlt := hfault.faultAt.lt_length
    rw [List.append_nil] at hlt
    omega
  | cons e rest ih =>
    rw [result_run_cons]
    -- the fault is at this entry or after it
    rcases Nat.eq_or_lt_of_le hi with rfl | hlt
    · rw [step_of_fault h hfault.faultAt]
      rfl
    · obtain ⟨r', hstep, h'⟩ := step_of_no_fault h (hfault.not_faultAt_of_lt _ hlt)
      rw [hstep]
      refine ih h' ?_ (by simpa using hfault)
      rw [List.length_append, List.length_singleton]
      omega

end Reading

/-! ### Tables of entries -/

namespace Table

theorem result_ofEntries (entries : List Entry) :
    (ofEntries entries).result = (({} : Reading).run entries).result.map Reading.table := by
  rw [ofEntries, Traced.result_bind]
  cases (({} : Reading).run entries).result <;> rfl

theorem ofEntries_of_no_fault {entries : List Entry} (h : ∀ i err, ¬ FaultAt entries i err) :
    ∃ t, (ofEntries entries).result = .ok t ∧ Reads entries t.toList := by
  obtain ⟨r, hrun, hafter⟩ := Reading.run_of_no_fault Reading.after_nil fun i err _ => h i err
  exact ⟨r.table, by rw [result_ofEntries, hrun]; rfl, hafter.reads⟩

theorem ofEntries_of_firstFault {entries : List Entry} {i : Nat} {err : DefinitionError}
    (h : FirstFault entries i err) : (ofEntries entries).result = .error err := by
  rw [result_ofEntries, Reading.run_of_firstFault Reading.after_nil (Nat.zero_le i) h]
  rfl

/-- Entries without a table are refused for their first fault. -/
theorem ofEntries_eq_error_iff {entries : List Entry} {err : DefinitionError} :
    (ofEntries entries).result = .error err ↔ ∃ i, FirstFault entries i err := by
  constructor
  · intro h
    by_cases hfault : ∃ i err, FaultAt entries i err
    · obtain ⟨i, err', hi⟩ := hfault
      obtain ⟨i, err', hfirst⟩ := exists_firstFault hi
      obtain rfl := Except.error.inj ((ofEntries_of_firstFault hfirst).symm.trans h)
      exact ⟨i, hfirst⟩
    · obtain ⟨t, ht, -⟩ := ofEntries_of_no_fault fun i err hi => hfault ⟨i, err, hi⟩
      rw [ht] at h
      cases h
  · rintro ⟨i, h⟩
    exact ofEntries_of_firstFault h

theorem reads_of_ofEntries {entries : List Entry} {t : Table}
    (h : (ofEntries entries).result = .ok t) : Reads entries t.toList := by
  have hfault : ∀ i err, ¬ FaultAt entries i err := by
    intro i err hi
    obtain ⟨i, err, hfirst⟩ := exists_firstFault hi
    rw [ofEntries_of_firstFault hfirst] at h
    cases h
  obtain ⟨t', ht', hreads⟩ := ofEntries_of_no_fault hfault
  obtain rfl := Except.ok.inj (ht'.symm.trans h)
  exact hreads

/-- Entries that spell nodes of different names have a table of these nodes. -/
theorem ofEntries_of_reads {entries : List Entry} {nodes : List Node} (h : Reads entries nodes)
    (hnodup : (nodes.map Node.name).Nodup) :
    ∃ t, (ofEntries entries).result = .ok t ∧ t.toList = nodes := by
  obtain ⟨t, ht, hreads⟩ := ofEntries_of_no_fault (not_faultAt_of_reads h hnodup)
  exact ⟨t, ht, h.unique hreads⟩

/-- Entries have a table exactly if each spells a node and no two nodes have one name. -/
theorem exists_ofEntries_iff {entries : List Entry} :
    (∃ t, (ofEntries entries).result = .ok t) ↔
      ∃ nodes, Reads entries nodes ∧ (nodes.map Node.name).Nodup := by
  constructor
  · rintro ⟨t, ht⟩
    exact ⟨t.toList, reads_of_ofEntries ht, t.nodup_names⟩
  · rintro ⟨nodes, h, hnodup⟩
    obtain ⟨t, ht, -⟩ := ofEntries_of_reads h hnodup
    exact ⟨t, ht⟩

theorem eq_of_firstFault {entries : List Entry} {i : Nat} {err err' : DefinitionError}
    (h : FirstFault entries i err) (h' : FaultAt entries i err') : err' = err :=
  Except.error.inj ((ofEntries_of_firstFault ⟨h', h.not_faultAt_of_lt⟩).symm.trans
    (ofEntries_of_firstFault h))

/-- The table never refuses a node that is read. -/
theorem ofEntries_ne_repeatedNode (entries : List Entry) (line : Nat) (entry name : String) :
    (ofEntries entries).result ≠ .error (.invalid line entry (.repeatedNode name)) := by
  intro h
  obtain ⟨i, hfirst⟩ := ofEntries_eq_error_iff.1 h
  cases hfirst.faultAt with
  | refused _ hparse => exact Entry.parse_ne_repeatedNode _ _ _ _ hparse

/-! ### Lists of entries -/

theorem getElem?_listEntries_eq_some_iff {texts : List String} {i : Nat} {e : Entry} :
    (listEntries texts)[i]? = some e ↔ ∃ text, texts[i]? = some text ∧ e = ⟨i + 1, text⟩ := by
  rw [listEntries, List.getElem?_map, List.getElem?_zipIdx]
  cases texts[i]? with
  | none => simp
  | some text =>
    simp only [Option.map_some, Option.some.injEq, exists_eq_left']
    rw [eq_comm, Nat.add_comm]

theorem length_listEntries (texts : List String) : (listEntries texts).length = texts.length := by
  simp [listEntries]

theorem exists_listEntries_append (texts later : List String) :
    ∃ more, listEntries (texts ++ later) = listEntries texts ++ more := by
  rw [listEntries, List.zipIdx_append, List.map_append]
  exact ⟨_, rfl⟩

/-- What stands after the first fault of a list does not matter. -/
theorem firstFault_take_append {texts later : List String} {i : Nat} {err : DefinitionError}
    (h : FirstFault (listEntries texts) i err) :
    FirstFault (listEntries (texts.take (i + 1) ++ later)) i err := by
  have hi : i < texts.length := length_listEntries texts ▸ h.faultAt.lt_length
  have hlen : i < (listEntries (texts.take (i + 1))).length := by
    rw [length_listEntries, List.length_take]
    omega
  -- both lists begin with the entries up to the fault
  rw [← List.take_append_drop (i + 1) texts] at h
  obtain ⟨more, hmore⟩ := exists_listEntries_append (texts.take (i + 1)) (texts.drop (i + 1))
  obtain ⟨more', hmore'⟩ := exists_listEntries_append (texts.take (i + 1)) later
  rw [hmore, firstFault_append_iff hlen] at h
  rw [hmore', firstFault_append_iff hlen]
  exact h

/-- A list of entries has a table of all its nodes, or none and the error of its first fault.
The entry at a position is read under the position, counted from 1, as its line. There is a
table exactly if each entry spells a node and no two nodes have one name, and then it lists
these nodes in order. Otherwise the error is that of the first fault, at which no other error
is possible and whose cause no later entry changes; a node that the table itself refuses is
not among the errors, for a list or for a text. -/
theorem ofList_all_or_nothing (texts : List String) :
    (∀ (i : Nat) (e : Entry), (listEntries texts)[i]? = some e ↔
      ∃ text, texts[i]? = some text ∧ e = ⟨i + 1, text⟩) ∧
    ((∃ t, (ofList texts).result = .ok t) ↔
      ∃ nodes, Reads (listEntries texts) nodes ∧ (nodes.map Node.name).Nodup) ∧
    (∀ t, (ofList texts).result = .ok t → Reads (listEntries texts) t.toList) ∧
    (∀ err, (ofList texts).result = .error err ↔ ∃ i, FirstFault (listEntries texts) i err) ∧
    (∀ i err, FirstFault (listEntries texts) i err →
      (∀ err', FaultAt (listEntries texts) i err' → err' = err) ∧
      ∀ later, (ofList (texts.take (i + 1) ++ later)).result = .error err) ∧
    (∀ line entry name,
      (ofList texts).result ≠ .error (.invalid line entry (.repeatedNode name))) ∧
    ∀ text line entry name,
      (ofText text).result ≠ .error (.invalid line entry (.repeatedNode name)) := by
  refine ⟨fun i e => getElem?_listEntries_eq_some_iff, exists_ofEntries_iff,
    fun t => reads_of_ofEntries, fun err => ofEntries_eq_error_iff, ?_,
    ofEntries_ne_repeatedNode _, fun text => ofEntries_ne_repeatedNode _⟩
  intro i err h
  refine ⟨fun err' h' => eq_of_firstFault h h', fun later => ?_⟩
  exact ofEntries_of_firstFault (firstFault_take_append h)

/-- A name that is repeated on line 3 is reported with the line of its first entry, and an
entry that spells nothing after it is not. -/
theorem ofList_repeated :
    (ofList ["A: int x", "B: C y", "A: D z", "bad"]).result = .error (.repeatedNode 3 "A" 1) := by
  let a : Node :=
    { name := "A"
      fields := [⟨"int", "x", by decide, by decide⟩]
      isIdentifier_name := by decide
      fields_ne_nil := by decide
      nodup_fields := by decide }
  let b : Node :=
    { name := "B"
      fields := [⟨"C", "y", by decide, by decide⟩]
      isIdentifier_name := by decide
      fields_ne_nil := by decide
      nodup_fields := by decide }
  let c : Node :=
    { name := "A"
      fields := [⟨"D", "z", by decide, by decide⟩]
      isIdentifier_name := by decide
      fields_ne_nil := by decide
      nodup_fields := by decide }
  have ha : Entry.parse ⟨1, "A: int x"⟩ = .ok a := by rfl
  have hc : Entry.parse ⟨3, "A: D z"⟩ = .ok c := by rfl
  have hreads : Reads (listEntries ["A: int x", "B: C y"]) [a, b] := by rfl
  have hsplit : listEntries ["A: int x", "B: C y", "A: D z", "bad"] =
      listEntries ["A: int x", "B: C y"] ++ [⟨3, "A: D z"⟩, ⟨4, "bad"⟩] := by rfl
  have hfirst : FirstFault (listEntries ["A: int x", "B: C y", "A: D z", "bad"]) 2
      (.repeatedNode 3 "A" 1) := by
    refine ⟨.repeated (j := 0) rfl hc (by decide) rfl ha rfl, fun k hk err' hk' => ?_⟩
    rw [hsplit, faultAt_append_iff hk] at hk'
    exact not_faultAt_of_reads hreads (by decide) k err' hk'
  exact ((ofList_all_or_nothing _).2.2.2.1 _).2 ⟨2, hfirst⟩

end Table

end NodeHeader
