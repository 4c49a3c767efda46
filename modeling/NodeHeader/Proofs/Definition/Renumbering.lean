/-
  Entries under other line numbers.

  The line of an entry is only ever shown: in the event of a node, and in errors. Entries that
  are renumbered are therefore read as before, with every line in the events and in the error
  renumbered (`Table.ofEntries_renumber`).

  The map of lines that a reading keeps differs between the two readings, so they are compared
  by a relation (`Reading.Renumbered`) that each step keeps (`Reading.step_renumber`).

  The entries of a text are those of the list of its lines that hold entries, renumbered
  (`textEntries_eq_map_renumber`), so text and list define the same table and give the same
  header.
-/
import NodeHeader.Proofs.Definition.Reading
import NodeHeader.Proofs.Header.Generation

namespace NodeHeader

/-! ### Renumbering -/

variable (f : Nat → Nat)

/-- An entry under another line. -/
def Entry.renumber (e : Entry) : Entry :=
  { e with line := f e.line }

/-- An event with its line under another number. -/
def Event.renumber : Event → Event
  | .nodeParsed node fields line => .nodeParsed node fields (f line)
  | event => event

/-- A refusal with its lines under other numbers, and all else as it was. -/
def DefinitionError.renumber : DefinitionError → DefinitionError
  | .malformedEntry line entry => .malformedEntry (f line) entry
  | .malformedField line entry position field => .malformedField (f line) entry position field
  | .noFields line entry => .noFields (f line) entry
  | .repeatedNode line name firstLine => .repeatedNode (f line) name (f firstLine)
  | .invalid line entry cause => .invalid (f line) entry cause
  | .unreadable cause => .unreadable cause

/-- An error with the lines of a refusal under other numbers. -/
def GenerationError.renumber : GenerationError → GenerationError
  | .definitions cause => .definitions (cause.renumber f)
  | error => error

/-! ### One entry -/

namespace Entry

variable {f : Nat → Nat} (e : Entry)

theorem parseField_renumber (position : Nat) (piece : List Char) :
    (e.renumber f).parseField position piece =
      (e.parseField position piece).mapError (DefinitionError.renumber f) := by
  unfold parseField
  split
  · rw [Except.mapError_mapError]
    rfl
  · rfl

theorem parseFields_renumber (position : Nat) (pieces : List (List Char)) :
    (e.renumber f).parseFields position pieces =
      (e.parseFields position pieces).mapError (DefinitionError.renumber f) := by
  induction pieces generalizing position with
  | nil => rfl
  | cons piece rest ih =>
    rw [parseFields, parseFields, parseField_renumber, ih]
    cases e.parseField position piece with
    | error err => rfl
    | ok field => cases e.parseFields (position + 1) rest <;> rfl

/-- An entry spells the same node whatever its line, or is refused under the other line. -/
theorem parse_renumber : (e.renumber f).parse = e.parse.mapError (DefinitionError.renumber f) := by
  have htext : (e.renumber f).text = e.text := rfl
  unfold parse
  rw [htext]
  cases cutAtColon (Text.trim e.text.toList) with
  | none => rfl
  | some parts =>
    obtain ⟨name, body⟩ := parts
    dsimp only
    split
    · rfl
    split
    · rfl
    -- name and body are there
    rw [parseFields_renumber]
    cases e.parseFields 0 (body.splitOn ',') with
    | error err => rfl
    | ok fields =>
      show (Node.make (String.ofList (Text.trim name)) fields).mapError _ =
        ((Node.make (String.ofList (Text.trim name)) fields).mapError _).mapError _
      rw [Except.mapError_mapError]
      rfl

end Entry

/-! ### A whole reading -/

namespace Reading

/-- The readings know the same nodes, and the lines of their names under other numbers. -/
structure Renumbered (r r' : Reading) : Prop where
  table_eq : r'.table = r.table
  lineOf_eq : ∀ name : String, r'.lineOf[name]? = r.lineOf[name]?.map f

variable {f : Nat → Nat} {r r' : Reading}

theorem Renumbered.insert (h : Renumbered f r r') (table : Table) (name : String) (line : Nat) :
    Renumbered f { table, lineOf := r.lineOf.insert name line }
      { table, lineOf := r'.lineOf.insert name (f line) } where
  table_eq := rfl
  lineOf_eq name' := by
    rw [Std.HashMap.getElem?_insert, Std.HashMap.getElem?_insert]
    split
    · rfl
    · exact h.lineOf_eq name'

theorem step_renumber (h : Renumbered f r r') (e : Entry) :
    Traced.InStep (Event.renumber f) (DefinitionError.renumber f) (Renumbered f) (r.step e)
      (r'.step (e.renumber f)) := by
  unfold step
  refine Traced.InStep.bind (R := Eq) ?_ ?_
  · rw [e.parse_renumber]
    exact Traced.inStep_retold (.ofExcept e.parse)
  · rintro node _ rfl
    rw [h.lineOf_eq, h.table_eq]
    cases hline : r.lineOf[node.name]? with
    | some firstLine => exact .error [] _
    | none =>
      refine Traced.InStep.bind (R := Eq) (.ok [_] rfl) ?_
      rintro - - rfl
      -- the table is the same, so it accepts or refuses the node on both sides
      cases r.table.push node with
      | error err => exact .error [] _
      | ok table => exact .ok [] (h.insert table node.name e.line)

theorem run_renumber (h : Renumbered f r r') (entries : List Entry) :
    Traced.InStep (Event.renumber f) (DefinitionError.renumber f) (Renumbered f) (r.run entries)
      (r'.run (entries.map (Entry.renumber f))) := by
  induction entries generalizing r r' with
  | nil => exact .ok [] h
  | cons e rest ih => exact (step_renumber h e).bind fun s s' hs => ih hs

end Reading

namespace Table

variable {f : Nat → Nat}

/-- Renumbered entries give the same table, or the same error for its first fault, with each
line renumbered. -/
theorem ofEntries_renumber (entries : List Entry) :
    ofEntries (entries.map (Entry.renumber f)) =
      (ofEntries entries).retold (Event.renumber f) (DefinitionError.renumber f) := by
  have hstart : Reading.Renumbered f {} {} := ⟨rfl, fun name => by simp⟩
  have h : Traced.InStep (Event.renumber f) (DefinitionError.renumber f) Eq (ofEntries entries)
      (ofEntries (entries.map (Entry.renumber f))) :=
    (Reading.run_renumber hstart entries).bind fun r r' hr => .ok [] hr.table_eq.symm
  exact h.eq_retold

end Table

/-! ### Headers -/

namespace Header

variable {f : Nat → Nat}

/-- What follows the reading tells no lines. -/
theorem retold_header (t : Table) (o : Options) :
    (t.header o).retold (Event.renumber f) (GenerationError.renumber f) = t.header o := by
  have hevents : (t.headerEvents o.toSettings).map (Event.renumber f) =
      t.headerEvents o.toSettings := by
    rw [Table.headerEvents, List.map_append, List.map_map]
    rfl
  unfold Table.header
  rw [Traced.retold_bind]
  unfold Table.check
  cases Conflict.first? o.toSettings t.toList with
  | some c => rfl
  | none =>
    show Traced.mk ([] ++ (t.headerEvents o.toSettings).map (Event.renumber f)) _ = _
    rw [hevents]
    rfl

theorem ofReading_retold (reading : Traced DefinitionError Table) (o : Options) :
    ofReading (reading.retold (Event.renumber f) (DefinitionError.renumber f)) o =
      (ofReading reading o).retold (Event.renumber f) (GenerationError.renumber f) := by
  have hcause : (reading.retold (Event.renumber f) (DefinitionError.renumber f)).mapError
      GenerationError.definitions = (reading.mapError GenerationError.definitions).retold
        (Event.renumber f) (GenerationError.renumber f) := by
    obtain ⟨events, result⟩ := reading
    cases result <;> rfl
  rw [ofReading, ofReading, hcause, Traced.retold_bind]
  simp only [retold_header]

end Header

/-! ### The entries of a text -/

/-- The numbers of the lines of a text that hold entries, counted from 1. -/
def entryNumbers (text : String) : List Nat :=
  (textEntries text).map Entry.line

/-- The lines of a text that hold entries, as they stand. -/
def entryLines (text : String) : List String :=
  (textEntries text).map Entry.text

theorem isPassedOver_eq_true_iff {line : List Char} :
    isPassedOver line = true ↔
      Text.trim line = [] ∨ (Text.trim line).head? = some commentMark := by
  unfold isPassedOver
  cases Text.trim line with
  | nil => simp
  | cons c rest => simp

theorem mem_textEntries_iff {text : String} {e : Entry} :
    e ∈ textEntries text ↔ ∃ i line, (Text.lines text.toList)[i]? = some line ∧
      isPassedOver line = false ∧ e = ⟨i + 1, String.ofList line⟩ := by
  simp only [textEntries, List.mem_map, List.mem_filter, Prod.exists,
    List.mk_mem_zipIdx_iff_le_and_getElem?_sub, Bool.not_eq_true']
  constructor
  · rintro ⟨line, n, ⟨⟨hn, hline⟩, hpass⟩, rfl⟩
    have hsucc : n - 1 + 1 = n := by omega
    exact ⟨n - 1, line, hline, hpass, by rw [hsucc]⟩
  · rintro ⟨i, line, hline, hpass, rfl⟩
    exact ⟨line, i + 1, ⟨⟨by omega, hline⟩, hpass⟩, rfl⟩

theorem pairwise_entryNumbers (text : String) : (entryNumbers text).Pairwise (· < ·) := by
  have hall : (((Text.lines text.toList).zipIdx 1).map Prod.snd).Pairwise (· < ·) := by
    rw [List.zipIdx_map_snd]
    exact List.pairwise_lt_range'
  have hsub : (entryNumbers text).Sublist (((Text.lines text.toList).zipIdx 1).map Prod.snd) := by
    rw [entryNumbers, textEntries, List.map_map]
    exact List.filter_sublist.map _
  exact hall.sublist hsub

theorem mem_entryNumbers_iff {text : String} {n : Nat} :
    n ∈ entryNumbers text ↔ ∃ i line, n = i + 1 ∧ (Text.lines text.toList)[i]? = some line ∧
      ¬ (Text.trim line = [] ∨ (Text.trim line).head? = some commentMark) := by
  simp only [entryNumbers, List.mem_map, mem_textEntries_iff, ← isPassedOver_eq_true_iff,
    Bool.not_eq_true]
  constructor
  · rintro ⟨e, ⟨i, line, hline, hpass, rfl⟩, rfl⟩
    exact ⟨i, line, rfl, hline, hpass⟩
  · rintro ⟨i, line, rfl, hline, hpass⟩
    exact ⟨_, ⟨i, line, hline, hpass, rfl⟩, rfl⟩

theorem map_some_entryLines (text : String) :
    (entryLines text).map some =
      (entryNumbers text).map fun n => (Text.lines text.toList)[n - 1]?.map String.ofList := by
  rw [entryLines, entryNumbers, List.map_map, List.map_map]
  refine List.map_congr_left fun e he => ?_
  obtain ⟨i, line, hline, -, rfl⟩ := mem_textEntries_iff.1 he
  simp [hline]

/-- The entries of a text are those of the list of its lines, with positions turned to lines. -/
theorem textEntries_eq_map_renumber {text : String} {f : Nat → Nat}
    (hf : ∀ i n, (entryNumbers text)[i]? = some n → f (i + 1) = n) :
    textEntries text = (listEntries (entryLines text)).map (Entry.renumber f) := by
  refine List.ext_getElem? fun i => ?_
  rw [listEntries, entryLines, List.getElem?_map, List.getElem?_map, List.getElem?_zipIdx,
    List.getElem?_map]
  cases he : (textEntries text)[i]? with
  | none => rfl
  | some e =>
    have hnumber : (entryNumbers text)[i]? = some e.line := by
      rw [entryNumbers, List.getElem?_map, he]
      rfl
    have hline : f (i + 1) = e.line := hf i e.line hnumber
    simp [Entry.renumber, Nat.add_comm 1 i, hline]

/-- A text of definitions reads as the list of its lines that hold entries, which are neither
blank nor comments. The table is the same, and so are the events and the error, the lines in
them apart: where the list has a position, the text has the number of the line at that
position. The same holds of the headers, and so both give the same document. -/
theorem Header.ofText_eq_ofList (text : String) (o : Options) :
    (entryNumbers text).Pairwise (· < ·) ∧
    (∀ n, n ∈ entryNumbers text ↔ ∃ i line, n = i + 1 ∧
      (Text.lines text.toList)[i]? = some line ∧
      ¬ (Text.trim line = [] ∨ (Text.trim line).head? = some commentMark)) ∧
    (entryLines text).map some =
      (entryNumbers text).map (fun n => (Text.lines text.toList)[n - 1]?.map String.ofList) ∧
    ∀ f : Nat → Nat, (∀ i n, (entryNumbers text)[i]? = some n → f (i + 1) = n) →
      Table.ofText text = (Table.ofList (entryLines text)).retold (Event.renumber f)
        (DefinitionError.renumber f) ∧
      Header.ofText text o = (Header.ofList (entryLines text) o).retold (Event.renumber f)
        (GenerationError.renumber f) ∧
      ∀ d, (Header.ofText text o).result = .ok d ↔
        (Header.ofList (entryLines text) o).result = .ok d := by
  refine ⟨pairwise_entryNumbers text, fun n => mem_entryNumbers_iff, map_some_entryLines text, ?_⟩
  intro f hf
  have htable : Table.ofText text = (Table.ofList (entryLines text)).retold (Event.renumber f)
      (DefinitionError.renumber f) := by
    rw [Table.ofText, textEntries_eq_map_renumber hf, Table.ofEntries_renumber]
    rfl
  have hheader : Header.ofText text o = (Header.ofList (entryLines text) o).retold
      (Event.renumber f) (GenerationError.renumber f) := by
    rw [Header.ofText, htable, Header.ofReading_retold]
    rfl
  refine ⟨htable, hheader, fun d => ?_⟩
  rw [hheader, Traced.result_retold]
  exact Except.mapError_eq_ok_iff

/-- Line 6 repeats a name of line 3, with comments and a blank line between the entries. -/
theorem Header.ofText_repeated :
    entryNumbers "# c\r\n\nA: int x\r\n  # d\n\tB: C y\nA: D z" = [3, 5, 6] ∧
    entryLines "# c\r\n\nA: int x\r\n  # d\n\tB: C y\nA: D z" =
      ["A: int x", "\tB: C y", "A: D z"] ∧
    (Header.ofList ["A: int x", "\tB: C y", "A: D z"] Options.default).result =
      .error (.definitions (.repeatedNode 3 "A" 1)) ∧
    (Header.ofText "# c\r\n\nA: int x\r\n  # d\n\tB: C y\nA: D z" Options.default).result =
      .error (.definitions (.repeatedNode 6 "A" 3)) := by
  let a : Node :=
    { name := "A"
      fields := [⟨"int", "x", by decide, by decide⟩]
      isIdentifier_name := by decide
      fields_ne_nil := by decide
      nodup_fields := by decide }
  let b : Node :=
    { name := "B"
      fields := [⟨"C", "y", by decide, by decide⟩]
      isIdentifier_name := by decide
      fields_ne_nil := by decide
      nodup_fields := by decide }
  let c : Node :=
    { name := "A"
      fields := [⟨"D", "z", by decide, by decide⟩]
      isIdentifier_name := by decide
      fields_ne_nil := by decide
      nodup_fields := by decide }
  have hnumbers : entryNumbers "# c\r\n\nA: int x\r\n  # d\n\tB: C y\nA: D z" = [3, 5, 6] := by
    decide
  have hlines : entryLines "# c\r\n\nA: int x\r\n  # d\n\tB: C y\nA: D z" =
      ["A: int x", "\tB: C y", "A: D z"] := by
    decide
  have ha : Entry.parse ⟨1, "A: int x"⟩ = .ok a := by rfl
  have hc : Entry.parse ⟨3, "A: D z"⟩ = .ok c := by rfl
  have hreads : Reads (listEntries ["A: int x", "\tB: C y"]) [a, b] := by rfl
  -- the list is refused at its position 3
  have hlist : (Header.ofList ["A: int x", "\tB: C y", "A: D z"] Options.default).result =
      .error (.definitions (.repeatedNode 3 "A" 1)) := by
    have hfault : FaultAt (listEntries ["A: int x", "\tB: C y"] ++ [⟨3, "A: D z"⟩]) 2
        (.repeatedNode 3 "A" 1) :=
      .repeated (j := 0) rfl hc (by decide) rfl ha rfl
    have hfirst := firstFault_of_reads hreads (by decide) hfault
    exact Header.ofReading_of_error (Table.ofEntries_of_firstFault hfirst) Options.default
  obtain ⟨-, -, -, h⟩ :=
    ofText_eq_ofList "# c\r\n\nA: int x\r\n  # d\n\tB: C y\nA: D z" Options.default
  refine ⟨hnumbers, hlines, hlist, ?_⟩
  rw [(h (fun p => [3, 5, 6].getD (p - 1) p) ?_).2.1, hlines]
  · rw [Traced.result_retold, hlist]
    rfl
  · rw [hnumbers]
    rintro (_ | _ | _ | i) n h <;> simp_all

end NodeHeader
