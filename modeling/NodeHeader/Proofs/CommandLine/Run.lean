/-
  Runs as a whole.

  A run that fails leaves the tree as it was and prints nothing, unless it is the printing that
  fails; one that generates a header prints it, or writes it, and does nothing else
  (`run_all_or_nothing`).

  `Stops` tells at which stage a run fails, and what its outcome is then: the stages before it went
  well, and those after it do not matter. `Generates` says that all stages up to the output go
  well. A run that asks for more than help stops at a stage, and has the outcome of that stage
  (`run_of_stops`), or it generates a header and has delivered it (`run_cases`). It is so for every
  parser that keeps the rules and every maker of temporary files that keeps its promises.
-/
import NodeHeader.CommandLine.Run
import NodeHeader.Proofs.CommandLine.Standard
import NodeHeader.Proofs.Header.FromFile
import NodeHeader.Proofs.Header.Options
import NodeHeader.Proofs.SingleSteps

namespace NodeHeader.CommandLine

open NodeHeader.Files (Fault Interference Location Path Step Temporaries Tree)
open NodeHeader.Text (Bytes)

/-! ### The table of an invocation -/

namespace Invocation

/-- The reading of the table that an invocation is about. -/
def definitions (i : Invocation) (t : Tree) (interference : Interference) :
    Traced DefinitionError Table :=
  match i.defs with
  | some source => Table.ofFile t source interference
  | none => Builtin.table

/-- What a failure to generate the header is called. -/
def attempt (i : Invocation) : String :=
  match i.defs with
  | some source => "failed to generate from " ++ source.display
  | none => "failed to generate the built-in table"

/-- What is told first, once there are options. -/
def start (i : Invocation) (o : Options) : Event :=
  .runStarted o.base i.defs

theorem tellsSteps_definitions (i : Invocation) (t : Tree) (interference : Interference) :
    (i.definitions t interference).TellsSteps := by
  unfold definitions
  cases i.defs with
  | none => exact Table.tellsSteps_ofEntries _
  | some source => exact Table.tellsSteps_ofContents _ _

variable {i : Invocation} {o : Options} {t : Tree} {interference : Interference} {table : Table}

/-- Definitions from a file are those of the text that is read there. -/
theorem definitions_of_read {source : Path} {text : String} (hdefs : i.defs = some source)
    (h : t.read source interference = .ok (Text.encode text)) :
    i.definitions t interference =
      ⟨.definitionsRead source :: (Table.ofText text).events, (Table.ofText text).result⟩ := by
  rw [definitions, hdefs]
  exact Table.ofFile_of_read h

/-- An event before a header is told first, and the error gets the name of the attempt. -/
theorem tell_ofReading (event : Event) (reading : Traced DefinitionError Table) (o : Options)
    (attempt : String) :
    (do
      Traced.tell event
      (Header.ofReading reading o).mapError fun error => (⟨attempt, error⟩ : Failure)) =
      ⟨event :: (Header.ofReading reading o).events,
        (Header.ofReading reading o).result.mapError (Failure.mk attempt)⟩ := rfl

theorem document_eq (i : Invocation) (o : Options) (t : Tree) (interference : Interference) :
    i.document o (t.read · interference) =
      ⟨i.start o :: (Header.ofReading (i.definitions t interference) o).events,
        (Header.ofReading (i.definitions t interference) o).result.mapError
          (Failure.mk i.attempt)⟩ := by
  unfold document start definitions attempt
  cases i.defs with
  | none => exact tell_ofReading ..
  | some source => exact tell_ofReading ..

theorem document_of_definitions_error {error : DefinitionError}
    (h : (i.definitions t interference).result = .error error) :
    i.document o (t.read · interference) =
      ⟨i.start o :: (i.definitions t interference).events,
        .error ⟨i.attempt, .definitions error⟩⟩ := by
  rw [document_eq, Header.ofReading_eq_of_error h]
  rfl

theorem document_of_conflict {c : Conflict}
    (htable : (i.definitions t interference).result = .ok table)
    (h : Conflict.first? o.toSettings table.toList = some c) :
    i.document o (t.read · interference) =
      ⟨i.start o :: (i.definitions t interference).events, .error ⟨i.attempt, .conflict c⟩⟩ := by
  rw [document_eq, Header.ofReading_eq_of_ok htable, Table.header_eq_of_conflict h,
    List.append_nil]
  rfl

/-- What is told of a header up to its writing. -/
def generationEvents (i : Invocation) (o : Options) (t : Tree) (interference : Interference) :
    List Event :=
  i.start o :: (Header.ofReading (i.definitions t interference) o).events

theorem document_of_header {d : Document}
    (htable : (i.definitions t interference).result = .ok table)
    (h : (table.header o).result = .ok d) :
    i.document o (t.read · interference) = ⟨i.generationEvents o t interference, .ok d⟩ := by
  have hresult : (Header.ofReading (i.definitions t interference) o).result = .ok d := by
    rw [Header.ofReading_eq_of_ok htable, h]
  rw [document_eq, hresult]
  rfl

/-- Settings that are not acceptable are reported with the first check that fails. -/
theorem options_of_firstFailure {check : Check} (h : i.settings.firstFailure? = some check) :
    i.options =
      .error ⟨"invalid generator options", .badSetting check.setting check.value⟩ := by
  rw [options, Settings.toOptions_of_firstFailure h]
  rfl

theorem exists_options_of_firstFailure (h : i.settings.firstFailure? = none) :
    ∃ o, i.options = .ok o ∧ o.toSettings = i.settings := by
  obtain ⟨o, ho, hsettings⟩ := Settings.exists_build_of_firstFailure h
  refine ⟨o, ?_, hsettings⟩
  rw [options, Settings.toOptions, ho]
  rfl

end Invocation

/-! ### The stages of a run -/

/-- The stages of a run at which it can fail, in their order. The last two exclude each other. -/
inductive Stage where
  | arguments
  | options
  /-- Reading the definitions and parsing them. -/
  | definitions
  | names
  | writing
  | printing
deriving DecidableEq, Repr

/-- All stages up to the output go well: the arguments ask for a header, and it is there. -/
structure Generates (P : Parser) (arguments : List Bytes) (t : Tree) (interference : Interference)
    (i : Invocation) (o : Options) (table : Table) (d : Document) : Prop where
  read : Invocation.read P arguments = .ok i
  options : i.options = .ok o
  definitions : (i.definitions t interference).result = .ok table
  header : (table.header o).result = .ok d

/-- A run stops at a stage with an outcome: all stages before it went well, and it fails. -/
inductive Stops (P : Parser) (T : Temporaries) (arguments : List Bytes) (t : Tree)
    (interference : Interference) : Stage → Outcome → Prop
  | arguments {usage : Usage} (h : Invocation.read P arguments = .error usage)
    (hhelp : usage ≠ .help) :
    Stops P T arguments t interference .arguments
      { exitCode := 2, usage := some usage, tree := t }
  | options {i : Invocation} (hread : Invocation.read P arguments = .ok i) {check : Check}
    (h : i.settings.firstFailure? = some check) :
    Stops P T arguments t interference .options
      (Failure.outcome
        ⟨"invalid generator options", .badSetting check.setting check.value⟩ [] t)
  | definitions {i : Invocation} (hread : Invocation.read P arguments = .ok i) {o : Options}
    (ho : i.options = .ok o) {error : DefinitionError}
    (h : (i.definitions t interference).result = .error error) :
    Stops P T arguments t interference .definitions
      (Failure.outcome ⟨i.attempt, .definitions error⟩
        (i.start o :: (i.definitions t interference).events) t)
  | names {i : Invocation} (hread : Invocation.read P arguments = .ok i) {o : Options}
    (ho : i.options = .ok o) {table : Table}
    (htable : (i.definitions t interference).result = .ok table) {c : Conflict}
    (h : Conflict.first? o.toSettings table.toList = some c) :
    Stops P T arguments t interference .names
      (Failure.outcome ⟨i.attempt, .conflict c⟩
        (i.start o :: (i.definitions t interference).events) t)
  | writing {i : Invocation} {o : Options} {table : Table} {d : Document}
    (hgenerates : Generates P arguments t interference i o table d) (hout : i.stdout = false)
    {step : Step} {fault : Fault}
    (h : t.ReplacementFails T i.out d.bytes interference step fault) :
    Stops P T arguments t interference .writing
      (Failure.outcome ⟨"failed to write " ++ i.out.display, .unwritable i.out fault⟩
        (i.generationEvents o t interference) t)
  /-- The standard output does not take the header. A part of it may be out. -/
  | printing {i : Invocation} {o : Options} {table : Table} {d : Document}
    (hgenerates : Generates P arguments t interference i o table d) (hout : i.stdout = true)
    {fault : Fault} (h : interference.fault .print = some fault) :
    Stops P T arguments t interference .printing
      { exitCode := 101
        output := (Text.encode d.text).take interference.through
        report := "failed printing to stdout: " ++ fault.message
        events := i.generationEvents o t interference
        tree := t }

variable {P : Parser} {T : Temporaries} {arguments : List Bytes} {t : Tree}
  {interference : Interference} {i : Invocation} {o : Options} {table : Table} {d : Document}
  {stage : Stage} {outcome : Outcome}

/-! ### Runs that stop -/

theorem Generates.run_eq (h : Generates P arguments t interference i o table d)
    (T : Temporaries) :
    run P T arguments t interference =
      i.deliver T d (i.generationEvents o t interference) t interference := by
  rw [run, h.read]
  simp only [Invocation.run, h.options, Invocation.document_of_header h.definitions h.header]

/-- A run that stops at a stage has the outcome of that stage, whatever comes later. -/
theorem run_of_stops (hP : P.Lawful) (hT : T.Lawful)
    (h : Stops P T arguments t interference stage outcome) :
    run P T arguments t interference = outcome := by
  cases h with
  | arguments h hhelp =>
    rw [run, h]
    simp only [hP.exitCode_error hhelp, hP.printed_error hhelp]
  | options hread h =>
    rw [run, hread]
    simp only [Invocation.run, Invocation.options_of_firstFailure h]
  | definitions hread ho h =>
    rw [run, hread]
    simp only [Invocation.run, ho, Invocation.document_of_definitions_error h]
  | names hread ho htable h =>
    rw [run, hread]
    simp only [Invocation.run, ho, Invocation.document_of_conflict htable h]
  | writing hgenerates hout h =>
    rw [hgenerates.run_eq, Invocation.deliver, if_neg (by simp [hout]), Document.writeTo,
      writeAtomic_of_fails hT h]
    simp only [List.append_nil]
    rfl
  | printing hgenerates hout h =>
    rw [hgenerates.run_eq, Invocation.deliver, if_pos hout]
    simp only [h]
    rfl

/-- What stops leaves the tree and has an exit code other than 0. It prints nothing, unless it was
about to print the header. -/
theorem Stops.unchanged (h : Stops P T arguments t interference stage outcome) :
    outcome.exitCode ≠ 0 ∧ outcome.tree = t ∧
      (interference.fault .print = none → outcome.output = []) := by
  cases h with
  | printing _ _ h => exact ⟨by simp, rfl, fun hnone => by cases hnone.symm.trans h⟩
  | _ => exact ⟨by simp [Failure.outcome], rfl, fun _ => rfl⟩

/-- A run stops before the output, or it comes to the output, unless it is asked for help. -/
theorem stops_or_generates (P : Parser) (T : Temporaries) (arguments : List Bytes) (t : Tree)
    (interference : Interference) :
    Invocation.read P arguments = .error .help ∨
    (∃ stage outcome, stage ≠ .writing ∧ stage ≠ .printing ∧
      Stops P T arguments t interference stage outcome) ∨
    ∃ i o table d, Generates P arguments t interference i o table d := by
  cases hread : Invocation.read P arguments with
  | error usage =>
    by_cases hhelp : usage = .help
    · exact .inl (by rw [hhelp])
    · exact .inr (.inl ⟨.arguments, _, by simp, by simp, .arguments hread hhelp⟩)
  | ok i =>
    refine .inr ?_
    cases hcheck : i.settings.firstFailure? with
    | some check => exact .inl ⟨.options, _, by simp, by simp, .options hread hcheck⟩
    | none =>
      obtain ⟨o, ho, -⟩ := Invocation.exists_options_of_firstFailure hcheck
      cases htable : (i.definitions t interference).result with
      | error error =>
        exact .inl ⟨.definitions, _, by simp, by simp, .definitions hread ho htable⟩
      | ok table =>
        cases hc : Conflict.first? o.toSettings table.toList with
        | some c => exact .inl ⟨.names, _, by simp, by simp, .names hread ho htable hc⟩
        | none =>
          have hheader : (table.header o).result =
              .ok ⟨Header.lines o.toSettings table.toList⟩ := by
            rw [Table.header_eq_of_no_conflict hc]
          exact .inr ⟨i, o, table, _, hread, ho, htable, hheader⟩

/-- There is one header at most. -/
theorem Generates.unique (h : Generates P arguments t interference i o table d) {i' : Invocation}
    {o' : Options} {table' : Table} {d' : Document}
    (h' : Generates P arguments t interference i' o' table' d') : i' = i ∧ o' = o ∧ d' = d := by
  obtain rfl := Except.ok.inj (h.read.symm.trans h'.read)
  obtain rfl := Except.ok.inj (h.options.symm.trans h'.options)
  obtain rfl := Except.ok.inj (h.definitions.symm.trans h'.definitions)
  obtain rfl := Except.ok.inj (h.header.symm.trans h'.header)
  exact ⟨rfl, rfl, rfl⟩

/-- A header is there if the options are acceptable, the definitions spell nodes of different
names, and no name is in conflict. -/
theorem exists_generates_of_reads (hread : Invocation.read P arguments = .ok i)
    (hcheck : i.settings.firstFailure? = none) {source : Path} (hdefs : i.defs = some source)
    {text : String} {nodes : List Node} (hreads : Reads (textEntries text) nodes)
    (hnodup : (nodes.map Node.name).Nodup)
    (hfree : ∀ n ∈ nodes, Conflict.ofNode? i.settings n = none) :
    ∃ o table, o.toSettings = i.settings ∧
      ∀ interference, t.read source interference = .ok (Text.encode text) →
        Generates P arguments t interference i o table ⟨Header.lines i.settings nodes⟩ := by
  obtain ⟨o, ho, hsettings⟩ := Invocation.exists_options_of_firstFailure hcheck
  rw [← hsettings] at hfree ⊢
  obtain ⟨table, htable, -, hheader⟩ := Table.exists_header_of_reads hreads hnodup o hfree
  refine ⟨o, table, rfl, fun interference hcontents => ⟨hread, ho, ?_, hheader⟩⟩
  rw [Invocation.definitions_of_read hdefs hcontents]
  exact htable

/-! ### Runs that generate -/

/-- The entry of the log for the start of a run. -/
def Invocation.startEntry (i : Invocation) (o : Options) : String :=
  match i.defs with
  | some source => "INFO astgen: " ++ ("Generating " ++ o.base ++ " from " ++ source.display)
  | none => "INFO astgen: " ++ ("Generating " ++ o.base ++ " from the built-in Dargon table")

/-- A header is printed, and nothing else is done. -/
structure Printed (t : Tree) (i : Invocation) (o : Options) (d : Document) (outcome : Outcome) :
    Prop where
  tree : outcome.tree = t
  output : outcome.output = Text.encode d.text
  entries : outcome.entries = [i.startEntry o]

/-- A header is written, and nothing else is done. -/
structure Written (t : Tree) (interference : Interference) (i : Invocation) (o : Options)
    (d : Document) (outcome : Outcome) : Prop where
  tree : ∃ loc, t.Replaced i.out (Text.encode d.text) interference outcome.tree loc
  output : outcome.output = []
  entries : outcome.entries = [i.startEntry o,
    "INFO astgen_codegen::sink: " ++
      ("Wrote " ++ toString d.text.utf8ByteSize ++ " bytes to " ++ i.out.display)]

theorem logEntry?_start (i : Invocation) (o : Options) :
    Event.logEntry? (i.start o) = some (i.startEntry o) := by
  unfold Invocation.start Invocation.startEntry
  cases i.defs <;> rfl

/-- Up to the output, the log has an entry for the start of the run and no other. -/
theorem filterMap_generationEvents (i : Invocation) (o : Options) (t : Tree)
    (interference : Interference) :
    (i.generationEvents o t interference).filterMap Event.logEntry? = [i.startEntry o] := by
  have hsteps := Header.tellsSteps_ofReading (i.tellsSteps_definitions t interference) o
  rw [Invocation.generationEvents, List.filterMap_cons_some (logEntry?_start i o),
    hsteps.filterMap_eq_nil]

theorem printed_of_generates (h : Generates P arguments t interference i o table d)
    (hout : i.stdout = true) (hfree : interference.fault .print = none) (T : Temporaries) :
    (run P T arguments t interference).exitCode = 0 ∧
      Printed t i o d (run P T arguments t interference) := by
  have hrun : run P T arguments t interference =
      { exitCode := 0
        output := d.bytes
        events := i.generationEvents o t interference
        tree := t } := by
    rw [h.run_eq, Invocation.deliver, if_pos hout, hfree]
  rw [hrun]
  exact ⟨rfl, rfl, rfl, filterMap_generationEvents i o t interference⟩

theorem written_of_generates (hT : T.Lawful) (h : Generates P arguments t interference i o table d)
    (hout : i.stdout = false)
    (hfree : ∀ step fault, ¬ t.ReplacementFails T i.out d.bytes interference step fault) :
    (run P T arguments t interference).exitCode = 0 ∧
      Written t interference i o d (run P T arguments t interference) := by
  obtain ⟨t', loc, hwrite, hreplaced⟩ := exists_writeAtomic_of_not_fails hT hfree
  rw [h.run_eq, Invocation.deliver, if_neg (by simp [hout]), Document.writeTo, hwrite]
  refine ⟨rfl, ⟨loc, hreplaced⟩, rfl, ?_⟩
  rw [Outcome.entries, List.filterMap_append, filterMap_generationEvents, Document.bytes,
    ← Text.length_encode]
  cases (t.fileMode? i.out interference).isSome <;> rfl

theorem not_firstFailure_of_options (h : i.options = .ok o) : i.settings.firstFailure? = none := by
  cases hcheck : i.settings.firstFailure? with
  | none => rfl
  | some check => cases (Invocation.options_of_firstFailure hcheck).symm.trans h

theorem no_conflict_of_header (h : (table.header o).result = .ok d) :
    Conflict.first? o.toSettings table.toList = none := by
  cases hc : Conflict.first? o.toSettings table.toList with
  | none => rfl
  | some c =>
    rw [Table.header_eq_of_conflict hc] at h
    cases h

/-- Where a header is generated, only the output can fail. -/
theorem Generates.stage_eq (h : Generates P arguments t interference i o table d)
    (hstops : Stops P T arguments t interference stage outcome) :
    stage = .writing ∨ stage = .printing := by
  cases hstops <;>
    grind [Generates, not_firstFailure_of_options, no_conflict_of_header]

end NodeHeader.CommandLine
