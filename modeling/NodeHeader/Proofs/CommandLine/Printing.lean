/-
  Printing against writing, and what the places of files mean to a header.

  With `--stdout` in front of its arguments a run builds the same options and the same document, and
  fails alike before the output; only the output can make a difference (`run_withStdout`). This
  rests on what one more flag among the choices of a command line changes
  (`Invocation.read_withStdout`). The two runs may be interfered with in different ways, but not in
  the reading.

  The text of a header does not depend on where its definitions are read from and in which
  directory it is written, since neither its settings nor its table do
  (`Generates.of_alikeElsewhere`). Both are put together in `printing_agrees_with_writing`.
-/
import NodeHeader.Proofs.CommandLine.Run
import NodeHeader.Proofs.CommandLine.Spelling

namespace NodeHeader

open NodeHeader.Files (Fault Interference Path Temporaries Tree)
open NodeHeader.Text (Bytes)

/-- The table of a file depends on its contents, not on where it is. -/
theorem Table.result_ofContents (source source' : Path) (contents : Except Fault Bytes) :
    (Table.ofContents source contents).result = (Table.ofContents source' contents).result := by
  unfold Table.ofContents
  cases (contents.bind Files.textOf).mapError DefinitionError.unreadable <;> rfl

/-- What can be read depends on the faults of the reading alone. -/
theorem Files.Tree.read_congr {interference interference' : Interference}
    (h : interference'.fault .read = interference.fault .read) (t : Tree) (p : Path) :
    t.read p interference' = t.read p interference := by
  have hcheck : interference'.check .read = interference.check .read := by
    rw [Interference.check, h, Interference.check]
  rw [read, hcheck, read]

namespace CommandLine

/-! ### The flag for printing -/

/-- The arguments that ask for the header of others on the standard output. -/
def withStdout (arguments : List Bytes) : List Bytes :=
  Text.encode "--stdout" :: arguments

/-- The invocation that prints what another one writes. -/
def Invocation.printed (i : Invocation) : Invocation :=
  { i with stdout := true }

theorem Admissible.cons_stdout {cs : List Choice} (h : Admissible cs)
    (hout : Choice.flag .stdout ∉ cs) : Admissible (.flag .stdout :: cs) := by
  have hlast : Admissible (cs ++ [.flag .stdout]) :=
    ⟨consistent_concat_flag_iff.2 ⟨h.toConsistent, hout⟩, fun value hmem =>
      List.mem_append_left _ (h.visitor_of_return value (by simpa using hmem))⟩
  exact hlast.perm (List.perm_append_singleton _ _)

theorem Invocation.ofChoices_cons_stdout (cs : List Choice) :
    ofChoices (.flag .stdout :: cs) = (ofChoices cs).printed := by
  simp [ofChoices, printed, path?, text?, texts]

section Printing

variable {P : Parser} {T : Temporaries} {arguments : List Bytes} {t : Tree}
  {interference interference' : Interference} {i : Invocation} {o : Options} {table : Table}
  {d : Document} {stage : Stage} {outcome : Outcome}

/-- What is asked for with the flag in front is the same, but printed. -/
theorem Invocation.read_withStdout (hP : P.Lawful) (h : Invocation.read P arguments = .ok i)
    (hout : i.stdout = false) : Invocation.read P (withStdout arguments) = .ok i.printed := by
  obtain ⟨cs, hspelled, hcs, rfl⟩ := (read_eq_ok_iff_spelled hP).1 h
  have hnot : Choice.flag .stdout ∉ cs := of_decide_eq_false hout
  exact (read_eq_ok_iff_spelled hP).2 ⟨.flag .stdout :: cs, .cons (.flag .stdout) hspelled,
    hcs.cons_stdout hnot, (ofChoices_cons_stdout cs).symm⟩

/-! ### A run that prints beside a run that writes -/

theorem Invocation.definitions_congr (h : interference'.fault .read = interference.fault .read)
    (i : Invocation) (t : Tree) : i.definitions t interference' = i.definitions t interference := by
  unfold definitions Table.ofFile
  cases i.defs with
  | none => rfl
  | some source => simp only [t.read_congr h]

theorem Generates.printed (hP : P.Lawful) (h : Generates P arguments t interference i o table d)
    (hout : i.stdout = false) (hfault : interference'.fault .read = interference.fault .read) :
    Generates P (withStdout arguments) t interference' i.printed o table d where
  read := Invocation.read_withStdout hP h.read hout
  options := h.options
  definitions := (congrArg Traced.result (i.definitions_congr hfault t)).trans h.definitions
  header := h.header

/-- What stops before the output stops alike with the flag in front. -/
theorem Stops.alike (hP : P.Lawful) (h : Stops P T arguments t interference stage outcome)
    (hread : Invocation.read P arguments = .ok i) (hout : i.stdout = false)
    (hwriting : stage ≠ .writing) (hprinting : stage ≠ .printing)
    (hfault : interference'.fault .read = interference.fault .read) :
    Stops P T (withStdout arguments) t interference' stage outcome := by
  have hprinted := Invocation.read_withStdout hP hread hout
  have hdefinitions := i.definitions_congr hfault t
  cases h with
  | arguments hread' => cases hread.symm.trans hread'
  | options hread' h =>
    obtain rfl := Except.ok.inj (hread.symm.trans hread')
    exact .options hprinted h
  | definitions hread' ho h =>
    obtain rfl := Except.ok.inj (hread.symm.trans hread')
    rw [← hdefinitions] at h ⊢
    exact .definitions hprinted ho h
  | names hread' ho htable h =>
    obtain rfl := Except.ok.inj (hread.symm.trans hread')
    rw [← hdefinitions] at htable ⊢
    exact .names hprinted ho htable h
  | writing => exact absurd rfl hwriting
  | printing => exact absurd rfl hprinting

/-- Of two runs with the same document one prints it, unless the standard output is at fault, and
the other one writes it, or stops at the writing with the error of that. -/
structure PrintsAndWrites (P : Parser) (T : Temporaries) (arguments : List Bytes) (t : Tree)
    (interference interference' : Interference) (i : Invocation) (d : Document)
    (printed written : Outcome) : Prop where
  prints : interference'.fault .print = none →
    printed.exitCode = 0 ∧ printed.output = Text.encode d.text
  breaks : interference'.fault .print ≠ none →
    Stops P T (withStdout arguments) t interference' .printing printed
  replaced : written.exitCode = 0 →
    ∃ loc, t.Replaced i.out (Text.encode d.text) interference written.tree loc
  stops : written.exitCode ≠ 0 → Stops P T arguments t interference .writing written ∧
    ∃ error, (writeAtomic T t i.out (Text.encode d.text) interference).2.result = .error error ∧
      written.report = (i.unwritten error).report

theorem Generates.printsAndWrites (hP : P.Lawful) (hT : T.Lawful)
    (h : Generates P arguments t interference i o table d) (hout : i.stdout = false)
    (hfault : interference'.fault .read = interference.fault .read) :
    PrintsAndWrites P T arguments t interference interference' i d
      (run P T (withStdout arguments) t interference')
      (run P T arguments t interference) := by
  have hprinting := h.printed hP hout hfault
  have hprints (hfree : interference'.fault .print = none) :
      (run P T (withStdout arguments) t interference').exitCode = 0 ∧
        (run P T (withStdout arguments) t interference').output = Text.encode d.text := by
    obtain ⟨hcode, hprinted⟩ := printed_of_generates hprinting rfl hfree T
    exact ⟨hcode, hprinted.output⟩
  have hbreaks (hne : interference'.fault .print ≠ none) :
      Stops P T (withStdout arguments) t interference' .printing
        (run P T (withStdout arguments) t interference') := by
    obtain ⟨fault, hprint⟩ := Option.ne_none_iff_exists'.1 hne
    have hstops := Stops.printing (T := T) hprinting rfl hprint
    rw [run_of_stops hP hT hstops]
    exact hstops
  by_cases hfails : ∃ step fault, t.ReplacementFails T i.out d.bytes interference step fault
  · obtain ⟨step, fault, hfails⟩ := hfails
    have hstops := Stops.writing h hout hfails
    have hwrite := congrArg (·.2.result) (writeAtomic_of_fails hT hfails)
    refine ⟨hprints, hbreaks, ?_, ?_⟩ <;> rw [run_of_stops hP hT hstops]
    · intro hzero
      simp [Failure.outcome] at hzero
    · exact fun _ => ⟨hstops, _, hwrite, rfl⟩
  · obtain ⟨hzero, hwritten⟩ := written_of_generates hT h hout fun step fault hf =>
      hfails ⟨step, fault, hf⟩
    exact ⟨hprints, hbreaks, fun _ => hwritten.tree, fun hne => absurd hzero hne⟩

/-- Both runs stop alike before the output, or they generate the same document. -/
theorem run_withStdout (hP : P.Lawful) (hT : T.Lawful) (hread : Invocation.read P arguments = .ok i)
    (hout : i.stdout = false) (t : Tree)
    (hfault : interference'.fault .read = interference.fault .read) :
    (∃ stage, stage ≠ .writing ∧ stage ≠ .printing ∧
      Stops P T arguments t interference stage (run P T arguments t interference) ∧
      run P T (withStdout arguments) t interference' = run P T arguments t interference) ∨
    ∃ o table d, Generates P arguments t interference i o table d ∧
      Generates P (withStdout arguments) t interference' i.printed o table d ∧
      PrintsAndWrites P T arguments t interference interference' i d
        (run P T (withStdout arguments) t interference') (run P T arguments t interference) := by
  rcases stops_or_generates P T arguments t interference with hhelp |
    ⟨stage, outcome, hwriting, hprinting, h⟩ | ⟨i', o, table, d, h⟩
  · cases hread.symm.trans hhelp
  · have hstops := run_of_stops hP hT (h.alike hP hread hout hwriting hprinting hfault)
    rw [hstops, run_of_stops hP hT h]
    exact .inl ⟨stage, hwriting, hprinting, h, rfl⟩
  · obtain rfl := Except.ok.inj (hread.symm.trans h.read)
    exact .inr ⟨o, table, d, h, h.printed hP hout hfault, h.printsAndWrites hP hT hout hfault⟩

end Printing

/-! ### Where the definitions are and where the header goes -/

/-- Two command lines request the same, but for the file of the definitions and the directory that
the header is written to. -/
structure Request.AlikeElsewhere (r r' : Request) : Prop where
  others : { r with defs := r'.defs, out := r'.out } = r'
  defs : r.defs.isNone = r'.defs.isNone
  fileName : r.out.fileName? = r'.out.fileName?

namespace Request.AlikeElsewhere

variable {r r' : Request}

theorem symm (h : r.AlikeElsewhere r') : r'.AlikeElsewhere r :=
  ⟨by rw [← h.others], h.defs.symm, h.fileName.symm⟩

theorem settings_eq (h : r.AlikeElsewhere r') : r.settings = r'.settings := by
  obtain ⟨hothers, hdefs, hfileName⟩ := h
  rw [← hothers]
  simp only [settings, metadata, hdefs, hfileName]

end Request.AlikeElsewhere

/-- A header that is generated for the one command line is generated for the other, if the
definitions are the same. -/
theorem Generates.of_alikeElsewhere {P : Parser} {arguments arguments' : List Bytes}
    {r r' : Request} {t t' : Tree} {interference interference' : Interference}
    {source source' : Path} {o : Options} {table : Table} {d : Document}
    (hr : Request.read P arguments = .ok r) (hr' : Request.read P arguments' = .ok r')
    (halike : r.AlikeElsewhere r') (hdefs : r.defs = some source) (hdefs' : r'.defs = some source')
    (hcontents : t.read source interference = t'.read source' interference')
    {i : Invocation} (h : Generates P arguments t interference i o table d) :
    Generates P arguments' t' interference' r'.invocation o table d := by
  obtain ⟨r₁, hr₁, rfl⟩ := Invocation.read_eq_ok_iff.1 h.read
  obtain rfl := Except.ok.inj (hr.symm.trans hr₁)
  refine ⟨Invocation.read_eq_ok_iff.2 ⟨r', hr', rfl⟩, ?_, ?_, h.header⟩
  · have hoptions := h.options
    simp only [Invocation.options, Request.invocation, halike.settings_eq] at hoptions
    exact hoptions
  · -- the two tables are read from the same contents
    have hsource : r.invocation.defs = some source := hdefs
    have hsource' : r'.invocation.defs = some source' := hdefs'
    have hdefinitions := h.definitions
    rw [Invocation.definitions, hsource] at hdefinitions
    rw [Invocation.definitions, hsource']
    dsimp only at hdefinitions ⊢
    rw [Table.ofFile, ← hcontents, Table.result_ofContents source' source]
    exact hdefinitions

/-- With a parser that keeps the rules and whoever makes the temporary files: a run that writes and
the run with `--stdout` in front ask for the same options and, if the reading is not interfered with
in different ways, for the same document. They stop before the output with the same outcome, or the
header is there. Then the one run prints it, unless the standard output is at fault, and the other
one writes what is printed, or stops at the writing.

Two runs that request the same, but for the file of the definitions and the directory that the
header is written to, generate the same header, if the definitions are the same and the name of the
file is. -/
theorem printing_agrees_with_writing (P : Parser) (hP : P.Lawful) (T : Temporaries)
    (hT : T.Lawful) :
    (∀ (arguments : List Bytes) (i : Invocation), Invocation.read P arguments = .ok i →
      i.stdout = false → ∃ i', Invocation.read P (withStdout arguments) = .ok i' ∧
        i' = { i with stdout := true } ∧ i'.options = i.options ∧
        ∀ (t : Tree) (interference interference' : Interference),
          interference'.fault .read = interference.fault .read →
          (∀ o, i'.document o (t.read · interference') = i.document o (t.read · interference)) ∧
          ((∃ stage, stage ≠ .writing ∧ stage ≠ .printing ∧
              Stops P T arguments t interference stage (run P T arguments t interference) ∧
              run P T (withStdout arguments) t interference' = run P T arguments t interference) ∨
            ∃ o table d, Generates P arguments t interference i o table d ∧
              Generates P (withStdout arguments) t interference' i' o table d ∧
              PrintsAndWrites P T arguments t interference interference' i d
                (run P T (withStdout arguments) t interference')
                (run P T arguments t interference))) ∧
    ∀ (arguments arguments' : List Bytes) (r r' : Request) (t t' : Tree)
      (interference interference' : Interference) (source source' : Path),
      Request.read P arguments = .ok r → Request.read P arguments' = .ok r' →
      r.AlikeElsewhere r' → r.defs = some source → r'.defs = some source' →
      t.read source interference = t'.read source' interference' →
      ∀ d, (∃ i o table, Generates P arguments t interference i o table d) ↔
        ∃ i o table, Generates P arguments' t' interference' i o table d := by
  refine ⟨fun arguments i hread hout => ?_, fun arguments arguments' r r' t t' interference
    interference' source source' hr hr' halike hdefs hdefs' hcontents d => ?_⟩
  · refine ⟨i.printed, Invocation.read_withStdout hP hread hout, rfl, rfl,
      fun t interference interference' hfault =>
        ⟨fun o => ?_, run_withStdout hP hT hread hout t hfault⟩⟩
    simp only [t.read_congr hfault]
    rfl
  · constructor
    · rintro ⟨i, o, table, h⟩
      exact ⟨_, o, table, h.of_alikeElsewhere hr hr' halike hdefs hdefs' hcontents⟩
    · rintro ⟨i, o, table, h⟩
      exact ⟨_, o, table, h.of_alikeElsewhere hr' hr halike.symm hdefs' hdefs hcontents.symm⟩

/-- Two runs that get their definitions and put their headers elsewhere. The one of them is compared
with the run that prints, to a reader who has gone after some bytes. -/
theorem printing_agrees_with_writing_elsewhere :
    ∃ (arguments arguments' : List Bytes) (t : Tree) (onPrint : Interference) (i : Invocation)
      (d : Document),
      arguments = ["--defs=d", "-oa/A.h"].map Text.encode ∧
      arguments' = ["--out", "b/c/A.h", "--defs", "e"].map Text.encode ∧
      Invocation.read .standard arguments = .ok i ∧ i.stdout = false ∧
      (∃ o table, Generates .standard arguments t {} i o table d) ∧
      (∃ i' o table, Generates .standard arguments' t {} i' o table d) ∧
      PrintsAndWrites .standard .numbered arguments t {} {} i d
        (run .standard .numbered (withStdout arguments) t) (run .standard .numbered arguments t) ∧
      PrintsAndWrites .standard .numbered arguments t {} onPrint i d
        (run .standard .numbered (withStdout arguments) t onPrint)
        (run .standard .numbered arguments t) ∧
      (run .standard .numbered (withStdout arguments) t onPrint).exitCode ≠ 0 := by
  let arguments : List Bytes := ["--defs=d", "-oa/A.h"].map Text.encode
  let arguments' : List Bytes := ["--out", "b/c/A.h", "--defs", "e"].map Text.encode
  let definitions : Files.Item := .file 0o600 (Text.encode "A: int x")
  let t : Tree :=
    ((Tree.empty [[0x77]] 0o022).set [[0x77], [0x64]] definitions).set [[0x77], [0x65]] definitions
  let gone : Fault := .other "Broken pipe (os error 32)"
  let onPrint : Interference :=
    { fault := fun step => if step = .print then some gone else none
      through := 10 }
  let n : Node :=
    { name := "A"
      fields := [⟨"int", "x", by decide, by decide⟩]
      isIdentifier_name := by decide
      fields_ne_nil := by decide
      nodup_fields := by decide }
  let r : Request :=
    { defs := some (.ofString "d"), out := .ofString "a/A.h", stdout := false, base := "Expr"
      namespaceName := "dargon", includes := [], title := none, copyright := none
      description := none, since := none, visitor := false, visitorReturn := "void" }
  let r' : Request := { r with defs := some (.ofString "e"), out := .ofString "b/c/A.h" }
  have hr : Request.read .standard arguments = .ok r := by rfl
  have hr' : Request.read .standard arguments' = .ok r' := by rfl
  have hread : Invocation.read .standard arguments = .ok r.invocation := by rfl
  have hcontents : t.read (.ofString "d") = .ok (Text.encode "A: int x") := by rfl
  have hcontents' : t.read (.ofString "e") = .ok (Text.encode "A: int x") := by rfl
  have halike : r.AlikeElsewhere r' := ⟨rfl, rfl, by decide⟩
  have hreads : Reads (textEntries "A: int x") [n] := by rfl
  obtain ⟨o, table, -, hgenerates⟩ := exists_generates_of_reads hread (by decide) rfl hreads
    (by decide) (by decide)
  have h := hgenerates {} hcontents
  obtain ⟨hprinting, helsewhere⟩ := printing_agrees_with_writing .standard Parser.standard_lawful
    .numbered Files.Temporaries.numbered_lawful
  obtain ⟨i', -, -, -, hruns⟩ := hprinting arguments r.invocation hread rfl
  -- the run does not stop before the output
  have hboth (interference' : Interference) (hfault : interference'.fault .read = none) :
      PrintsAndWrites .standard .numbered arguments t {} interference' r.invocation
        ⟨Header.lines r.invocation.settings [n]⟩
        (run .standard .numbered (withStdout arguments) t interference')
        (run .standard .numbered arguments t) := by
    rcases (hruns t {} interference' hfault).2 with
      ⟨stage, hwriting, hprinting, hstops, -⟩ | ⟨o', table', d', h', -, hboth⟩
    · rcases h.stage_eq hstops with rfl | rfl
      · exact absurd rfl hwriting
      · exact absurd rfl hprinting
    · obtain ⟨-, -, rfl⟩ := h.unique h'
      exact hboth
  refine ⟨arguments, arguments', t, onPrint, r.invocation, _, rfl, rfl, hread, rfl, ⟨o, table, h⟩,
    ?_, hboth {} rfl, hboth onPrint rfl, ?_⟩
  · exact (helsewhere arguments arguments' r r' t t {} {} _ _ hr hr' halike rfl rfl
      (hcontents.trans hcontents'.symm) _).1 ⟨_, o, table, h⟩
  · exact ((hboth onPrint rfl).breaks nofun).unchanged.1

end CommandLine

end NodeHeader
