/-
  What is told of a header that is generated from entries.

  `Header.Trace` says how a generation can end and what was told until then: each entry before
  the first that is at fault, with the node that it spells; after all entries, if no name is in
  conflict, each node again as it is written; and at last the header with the number of its
  lines. Every generation from a text or a list ends in one of these ways
  (`Header.trace_ofText_ofList`).

  The loop over entries tells of a node after it has looked for the name among those it knows,
  and before the table takes the node in. That an entry at fault is never told of therefore rests
  on the invariant `Reading.After`: it is a fault that stops a step, not the table
  (`Reading.events_step_of_fault`). Over the entries before it, one event for each is an
  induction (`Reading.events_run_of_ok`).
-/
import NodeHeader.Proofs.Definition.Renumbering
import NodeHeader.Proofs.Header.Conflict

namespace NodeHeader

/-! ### Reading -/

/-- What is told of an entry and the node that it spells. -/
def Entry.parsed (e : Entry) (n : Node) : Event :=
  .nodeParsed n.name n.fields.length e.line

/-- What is told of entries and the nodes that they spell. -/
def parsedEvents (entries : List Entry) (nodes : List Node) : List Event :=
  List.zipWith Entry.parsed entries nodes

theorem Reads.exists_eq_cons {e : Entry} {rest : List Entry} {nodes : List Node}
    (h : Reads (e :: rest) nodes) :
    ∃ node more, nodes = node :: more ∧ e.parse = .ok node ∧ Reads rest more := by
  unfold Reads at h
  rw [List.map_cons] at h
  obtain ⟨node, more, hnodes, hnode, hmore⟩ := List.map_eq_cons_iff.1 h.symm
  exact ⟨node, more, hnodes, hnode.symm, hmore.symm⟩

namespace Reading

variable {r r' : Reading} {done : List Entry} {e : Entry} {rest : List Entry}

theorem events_step_of_ok (h : (r.step e).result = .ok r') {node : Node}
    (hparse : e.parse = .ok node) : (r.step e).events = [e.parsed node] := by
  have hnode : (Traced.ofExcept e.parse).result = .ok node := hparse
  rw [step, Traced.bind_of_ok hnode] at h ⊢
  cases hline : r.lineOf[node.name]? with
  | some firstLine =>
    rw [hline] at h
    cases h
  | none =>
    -- the event is told before the table is asked
    rw [hline] at h
    cases hpush : r.table.push node with
    | error err =>
      rw [hpush] at h
      cases h
    | ok table => rfl

/-- Nothing is told of an entry that is at fault. -/
theorem events_step_of_fault (h : r.After done) {err : DefinitionError}
    (hfault : FaultAt (done ++ e :: rest) done.length err) : (r.step e).events = [] := by
  obtain ⟨he, hparse⟩ | ⟨he, hparse, hj, hd, hfirst, hname⟩ := hfault
  · obtain rfl := Option.some.inj (getElem?_length.symm.trans he)
    have herror : (Traced.ofExcept e.parse).result = .error err := hparse
    rw [step, Traced.bind_of_error herror]
    rfl
  · obtain rfl := Option.some.inj (getElem?_length.symm.trans he)
    have hline := (h.lineOf_eq_some_iff _ _).2
      ⟨_, getElem?_lt_length_iff.1 ⟨_, hj, hd⟩, _, hfirst, hname, rfl⟩
    have hnode : (Traced.ofExcept e.parse).result = .ok _ := hparse
    rw [step, Traced.bind_of_ok hnode, hline]
    rfl

theorem events_run_of_ok {entries : List Entry} (h : (r.run entries).result = .ok r')
    {nodes : List Node} (hreads : Reads entries nodes) :
    (r.run entries).events = parsedEvents entries nodes := by
  induction entries generalizing r nodes with
  | nil => rfl
  | cons e rest ih =>
    obtain ⟨node, more, rfl, hparse, hmore⟩ := hreads.exists_eq_cons
    rw [result_run_cons] at h
    obtain ⟨s, hstep, hrun⟩ := Except.bind_eq_ok_iff.1 h
    rw [run, Traced.bind_of_ok hstep, events_step_of_ok hstep hparse, ih hrun hmore]
    rfl

/-- Entries after others are taken in where these have led. -/
theorem run_append_of_ok {first : List Entry} (h : (r.run first).result = .ok r')
    (second : List Entry) :
    r.run (first ++ second) =
      ⟨(r.run first).events ++ (r'.run second).events, (r'.run second).result⟩ := by
  induction first generalizing r with
  | nil =>
    obtain rfl := Except.ok.inj h
    rfl
  | cons e rest ih =>
    rw [result_run_cons] at h
    obtain ⟨s, hstep, hrun⟩ := Except.bind_eq_ok_iff.1 h
    rw [List.cons_append, run, run, Traced.bind_of_ok hstep, Traced.bind_of_ok hstep, ih hrun]
    simp only [List.append_assoc]

/-- Up to its first fault a reading tells of each entry, and there it stops. -/
theorem exists_run_of_firstFault {entries : List Entry} {i : Nat} {err : DefinitionError}
    (h : FirstFault entries i err) : ∃ nodes, Reads (entries.take i) nodes ∧
      ({} : Reading).run entries = ⟨parsedEvents (entries.take i) nodes, .error err⟩ := by
  have hi : i < entries.length := h.faultAt.lt_length
  have hlen : (entries.take i).length = i := List.length_take_of_le (Nat.le_of_lt hi)
  have hsplit : entries.take i ++ entries[i] :: entries.drop (i + 1) = entries := by
    rw [← List.drop_eq_getElem_cons hi, List.take_append_drop]
  generalize entries.take i = done at hlen hsplit ⊢
  generalize entries[i] = e at hsplit
  generalize entries.drop (i + 1) = rest at hsplit
  subst hlen hsplit
  -- the entries before the fault are taken in
  obtain ⟨r, hrun, hafter⟩ := run_of_no_fault after_nil fun k err' _ hk =>
    h.not_faultAt_of_lt k hk.lt_length err' ((faultAt_append_iff hk.lt_length).2 hk)
  have hreads : Reads done r.table.toList := hafter.reads
  refine ⟨r.table.toList, hreads, ?_⟩
  -- the step after them tells nothing
  have hstep : r.step e = ⟨[], .error err⟩ := by
    rw [← events_step_of_fault hafter h.faultAt, ← step_of_fault hafter h.faultAt]
  rw [run_append_of_ok hrun, events_run_of_ok hrun hreads, run, hstep]
  simp [Traced.bind_of_error]

end Reading

namespace Table

/-- Entries that define a table are all told of. -/
theorem ofEntries_eq_of_ok {entries : List Entry} {t : Table}
    (h : (ofEntries entries).result = .ok t) :
    Reads entries t.toList ∧ ofEntries entries = ⟨parsedEvents entries t.toList, .ok t⟩ := by
  have hreads : Reads entries t.toList := reads_of_ofEntries h
  rw [result_ofEntries] at h
  obtain ⟨r, hrun, rfl⟩ := Except.map_eq_ok_iff.1 h
  refine ⟨hreads, ?_⟩
  rw [ofEntries, Traced.bind_of_ok hrun, Reading.events_run_of_ok hrun hreads]
  simp

/-- Entries that define none are told of up to the first fault. -/
theorem exists_ofEntries_eq_of_error {entries : List Entry} {err : DefinitionError}
    (h : (ofEntries entries).result = .error err) :
    ∃ i nodes, FirstFault entries i err ∧ Reads (entries.take i) nodes ∧
      ofEntries entries = ⟨parsedEvents (entries.take i) nodes, .error err⟩ := by
  obtain ⟨i, hfirst⟩ := ofEntries_eq_error_iff.1 h
  obtain ⟨nodes, hreads, hrun⟩ := Reading.exists_run_of_firstFault hfirst
  refine ⟨i, nodes, hfirst, hreads, ?_⟩
  rw [ofEntries, hrun]
  rfl

end Table

/-! ### Headers -/

/-- How the generation of a header from entries ends, with what is told until then. -/
inductive Header.Trace (entries : List Entry) (o : Options) :
    Traced GenerationError Document → Prop
  /-- An entry is at fault, and none before it: the entries before it were told of. -/
  | refused {i : Nat} {err : DefinitionError} {nodes : List Node}
    (hfault : FirstFault entries i err) (hreads : Reads (entries.take i) nodes) :
    Trace entries o ⟨parsedEvents (entries.take i) nodes, .error (.definitions err)⟩
  /-- A name is in conflict: all entries were told of, and nothing else. -/
  | conflict {t : Table} {c : Conflict} (ht : (Table.ofEntries entries).result = .ok t)
    (hreads : Reads entries t.toList) (hcheck : t.check o.toSettings = .error (.conflict c)) :
    Trace entries o ⟨parsedEvents entries t.toList, .error (.conflict c)⟩
  /-- There is a header: after the entries each node was told of as it was written, and then
  the header. -/
  | written {t : Table} {d : Document} (ht : (Table.ofEntries entries).result = .ok t)
    (hreads : Reads entries t.toList) (hd : (t.header o).result = .ok d) :
    Trace entries o
      ⟨parsedEvents entries t.toList ++
        t.toList.map (fun n => .nodeEmitted n.name o.base n.fields.length) ++
        [.headerAssembled o.metadata.fileName t.size d.length], .ok d⟩

theorem Header.trace_ofReading (entries : List Entry) (o : Options) :
    Trace entries o (ofReading (Table.ofEntries entries) o) := by
  cases hresult : (Table.ofEntries entries).result with
  | error err =>
    obtain ⟨i, nodes, hfirst, hreads, heq⟩ := Table.exists_ofEntries_eq_of_error hresult
    rw [ofReading_eq_of_error hresult, heq]
    exact .refused hfirst hreads
  | ok t =>
    obtain ⟨hreads, heq⟩ := Table.ofEntries_eq_of_ok hresult
    rw [ofReading_eq_of_ok hresult, heq]
    cases hc : Conflict.first? o.toSettings t.toList with
    | some c =>
      have hcheck : t.check o.toSettings = .error (.conflict c) := by rw [Table.check, hc]
      rw [Table.header_eq_of_conflict hc, List.append_nil]
      exact .conflict hresult hreads hcheck
    | none =>
      have hheader := Table.header_eq_of_no_conflict hc
      rw [hheader, Table.headerEvents, ← List.append_assoc]
      exact .written hresult hreads (congrArg Traced.result hheader)

/-- What is told of a header is what was done for it, whichever way its generation ends, for a
text as for a list. Each entry that is read is told of with the name and the number of fields of
its node and with its line: the number of its line in a text, counted from 1, and its position
in a list. A header that is written tells of each node of the table, in order, and of the number
of its lines. -/
theorem Header.trace_ofText_ofList (o : Options) :
    (∀ text, Trace (textEntries text) o (ofText text o)) ∧
    (∀ text, (entryNumbers text).Pairwise (· < ·) ∧ ∀ e, e ∈ textEntries text ↔
      ∃ i line, (Text.lines text.toList)[i]? = some line ∧
        ¬ (Text.trim line = [] ∨ (Text.trim line).head? = some commentMark) ∧
        e = ⟨i + 1, String.ofList line⟩) ∧
    (∀ texts, Trace (listEntries texts) o (ofList texts o)) ∧
    (∀ (texts : List String) (i : Nat) (e : Entry), (listEntries texts)[i]? = some e ↔
      ∃ text, texts[i]? = some text ∧ e = ⟨i + 1, text⟩) ∧
    (∀ node fields line, (Event.nodeParsed node fields line).message =
      "Parsed node " ++ node ++ " with " ++ toString fields ++ " field(s) on line " ++
        toString line) ∧
    (∀ node base fields, (Event.nodeEmitted node base fields).message =
      "Emitted " ++ node ++ " : " ++ base ++ " with " ++ toString fields ++ " field(s)") ∧
    ∀ fileName nodes lines, (Event.headerAssembled fileName nodes lines).message =
      "Assembled " ++ fileName ++ " with " ++ toString nodes ++ " node(s), " ++ toString lines ++
        " line(s)" := by
  refine ⟨fun text => trace_ofReading _ o, fun text => ?_, fun texts => trace_ofReading _ o,
    fun texts i e => Table.getElem?_listEntries_eq_some_iff, ?_⟩
  · simp only [← isPassedOver_eq_true_iff, Bool.not_eq_true]
    exact ⟨pairwise_entryNumbers text, fun e => mem_textEntries_iff⟩
  · exact ⟨fun _ _ _ => rfl, fun _ _ _ => rfl, fun _ _ _ => rfl⟩

/-- The third entry repeats the name of the first: the two before it were told of. -/
example : (Header.ofText "# c\n\nA: int x\nB: C y, C z\nA: D z" Options.default).events =
    [.nodeParsed "A" 1 3, .nodeParsed "B" 2 4] := by
  cbv

end NodeHeader
