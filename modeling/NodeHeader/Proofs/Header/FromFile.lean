/-
  Headers from files and to files, beside headers from texts.

  A file that can be read as a text gives the header of that text, or the same error, and only
  the reading is told besides (`Header.ofFile_of_read`); any other file gives the fault of its
  reading, and no entry is looked at (`Header.ofFile_of_noText`). A header that is written to a
  file is there as a whole before the file is touched, so nothing changes where there is none
  (`writeWhenDone_of_error`), and otherwise it is the writing alone that can still fail
  (`writeWhenDone_of_ok`). All of it is put together in `Header.toFile_agrees_with_ofText`, in
  which the two files may be the same.
-/
import NodeHeader.Proofs.Header.Conflict
import NodeHeader.Proofs.Output

namespace NodeHeader

open NodeHeader.Files (Fault Interference Location Path Temporaries Tree)
open NodeHeader.Text (Bytes)

/-! ### Texts in files -/

/-- Why a file gives no text: it cannot be read, by itself or for a reason from outside, or its
contents encode none. -/
inductive Files.Tree.NoText (t : Tree) (p : Path) (interference : Interference) : Fault → Prop
  | unreadable {fault : Fault} (h : t.read p interference = .error fault) :
    NoText t p interference fault
  | notUtf8 {contents : Bytes} (h : t.read p interference = .ok contents)
    (hcontents : ∀ text, contents ≠ Text.encode text) : NoText t p interference .notUtf8

/-- A file gives a text, or there is a reason why it gives none. -/
theorem Files.Tree.exists_noText_or_read (t : Tree) (p : Path) (interference : Interference) :
    (∃ fault, t.NoText p interference fault) ∨
      ∃ text, t.read p interference = .ok (Text.encode text) := by
  cases hread : t.read p interference with
  | error fault => exact .inl ⟨fault, .unreadable hread⟩
  | ok contents =>
    by_cases htext : ∃ text, contents = Text.encode text
    · obtain ⟨text, rfl⟩ := htext
      exact .inr ⟨text, rfl⟩
    · exact .inl ⟨.notUtf8, .notUtf8 hread (not_exists.1 htext)⟩

/-- What interferes with the reading of a file is why it gives no text. -/
theorem Files.Tree.noText_of_interference (t : Tree) (p : Path) {interference : Interference}
    {fault : Fault} (h : interference.fault .read = some fault) :
    t.NoText p interference fault := by
  refine .unreadable ?_
  rw [Tree.read, Interference.check_eq_error_iff.2 h]
  rfl

variable {T : Temporaries} {t : Tree} {source : Path} {text : String} {fault : Fault}
  {interference : Interference}

theorem Files.Tree.NoText.textOf_eq (h : t.NoText source interference fault) :
    (t.read source interference).bind Files.textOf = .error fault := by
  cases h with
  | unreadable h =>
    rw [h]
    rfl
  | @notUtf8 contents h hcontents =>
    have hdecode : Text.decode? contents = none :=
      Option.eq_none_iff_forall_ne_some.2 fun text htext =>
        hcontents text (Text.decode?_eq_some_iff.1 htext)
    rw [h, Except.bind, Files.textOf, hdecode]

/-! ### Definitions in files -/

namespace Table

theorem ofFile_of_noText (h : t.NoText source interference fault) :
    ofFile t source interference = ⟨[], .error (.unreadable fault)⟩ := by
  rw [ofFile, ofContents, h.textOf_eq]
  rfl

/-- Definitions from a file are those of the text that is read there. -/
theorem ofFile_of_read (h : t.read source interference = .ok (Text.encode text)) :
    ofFile t source interference =
      ⟨.definitionsRead source :: (ofText text).events, (ofText text).result⟩ := by
  have htext : (t.read source interference).bind Files.textOf = .ok text := by
    rw [h, Except.bind, Files.textOf, Text.decode?_encode]
  rw [ofFile, ofContents, htext]
  rfl

end Table

namespace Header

theorem ofFile_of_noText (h : t.NoText source interference fault) (o : Options) :
    ofFile t source o interference = ⟨[], .error (.definitions (.unreadable fault))⟩ := by
  rw [ofFile, Table.ofFile_of_noText h]
  rfl

/-- The header of a file is that of the text that is read there. -/
theorem ofFile_of_read (h : t.read source interference = .ok (Text.encode text)) (o : Options) :
    ofFile t source o interference =
      ⟨.definitionsRead source :: (ofText text o).events, (ofText text o).result⟩ := by
  rw [ofFile, Table.ofFile_of_read h, ofText]
  cases hresult : (Table.ofText text).result with
  | error err => rw [ofReading_eq_of_error rfl, ofReading_eq_of_error hresult]
  | ok table =>
    rw [ofReading_eq_of_ok rfl, ofReading_eq_of_ok hresult]
    rfl

end Header

/-! ### Writing what is there -/

variable {document : Traced GenerationError Document} {target : Path}

/-- Without a document nothing is written. -/
theorem writeWhenDone_of_error {error : GenerationError} (h : document.result = .error error) :
    writeWhenDone T document t target interference = (t, document) := by
  rw [writeWhenDone, h]

/-- A document that is there is written, or only its writing fails. -/
theorem writeWhenDone_of_ok {d : Document} (h : document.result = .ok d) :
    writeWhenDone T document t target interference =
      ((writeAtomic T t target (Text.encode d.text) interference).1,
        ⟨document.events ++ (writeAtomic T t target (Text.encode d.text) interference).2.events,
          (writeAtomic T t target (Text.encode d.text) interference).2.result.map fun _ => d⟩) := by
  obtain ⟨events, result⟩ := document
  obtain rfl : result = .ok d := h
  have hwrite : d.writeTo T t target interference =
      writeAtomic T t target (Text.encode d.text) interference := rfl
  unfold writeWhenDone
  dsimp only
  rw [hwrite]
  obtain ⟨t', writing, written⟩ := writeAtomic T t target (Text.encode d.text) interference
  cases written with
  | error error => rfl
  | ok u =>
    show (t', (⟨events ++ (writing ++ []), .ok d⟩ : Traced GenerationError Document)) = _
    rw [List.append_nil]
    rfl

/-- A file of definitions and the text in it have the same header. If the file cannot be read,
or holds no text, then this is the error, nothing is told, and no file is touched. Otherwise the
file gives the document of the text, or its error, and tells of the reading besides. When a
header is to be written, then an error of the text leaves all files as they were; and so does a
writing that fails, at whichever step, whoever makes the temporary files. A writing that goes well
puts the text of the document where the target says, changes nothing else, and gives the document.
Source and target may be the same file. -/
theorem Header.toFile_agrees_with_ofText (T : Temporaries) (hT : T.Lawful) (t : Tree)
    (source target : Path) (o : Options) (interference : Interference) :
    ((∃ fault, t.NoText source interference fault) ∨
      ∃ text, t.read source interference = .ok (Text.encode text)) ∧
    (∀ fault, t.NoText source interference fault →
      ofFile t source o interference = ⟨[], .error (.definitions (.unreadable fault))⟩ ∧
      toFile T t source target o interference =
        (t, ⟨[], .error (.definitions (.unreadable fault))⟩)) ∧
    ∀ text, t.read source interference = .ok (Text.encode text) →
      (ofFile t source o interference).events =
        .definitionsRead source :: (ofText text o).events ∧
      (ofFile t source o interference).result = (ofText text o).result ∧
      (∀ error, (ofText text o).result = .error error →
        toFile T t source target o interference = (t, ofFile t source o interference)) ∧
      ∀ d, (ofText text o).result = .ok d →
        (∀ step fault, t.ReplacementFails T target (Text.encode d.text) interference step fault →
          toFile T t source target o interference =
            (t, ⟨(ofFile t source o interference).events, .error (.unwritable target fault)⟩)) ∧
        ((∀ step fault,
            ¬ t.ReplacementFails T target (Text.encode d.text) interference step fault) →
          ∃ t' loc, toFile T t source target o interference =
            (t', ⟨(ofFile t source o interference).events ++
              writeEvents (t.fileMode? target interference).isSome target (Text.encode d.text),
              .ok d⟩) ∧
            t.Replaced target (Text.encode d.text) interference t' loc) := by
  refine ⟨t.exists_noText_or_read source interference, fun fault h => ?_, fun text htext => ?_⟩
  · have hfile := ofFile_of_noText h o
    refine ⟨hfile, ?_⟩
    rw [toFile, hfile]
    exact writeWhenDone_of_error rfl
  have hfile := ofFile_of_read htext o
  have hresult : (ofFile t source o interference).result = (ofText text o).result := by rw [hfile]
  refine ⟨by rw [hfile], hresult, fun error herror => ?_, fun d hd => ⟨fun step fault h => ?_,
    fun h => ?_⟩⟩
  · exact writeWhenDone_of_error (hresult.trans herror)
  · rw [toFile, writeWhenDone_of_ok (hresult.trans hd), writeAtomic_of_fails hT h]
    simp [Except.map]
  · obtain ⟨t', loc, hwrite, hreplaced⟩ := exists_writeAtomic_of_not_fails hT h
    refine ⟨t', loc, ?_, hreplaced⟩
    rw [toFile, writeWhenDone_of_ok (hresult.trans hd), hwrite]
    rfl

/-- A header is written over its own definitions, which a full disk leaves as they are; a file that
is no text has none, and neither has one that must not be read. -/
theorem Header.toFile_over_source :
    ∃ (t : Tree) (path other : Path) (d : Document) (onWrite onRead : Interference)
      (full denied : Fault),
      t.read path = .ok (Text.encode "A: int x") ∧
      (ofText "A: int x" Options.default).result = .ok d ∧
      (toFile .numbered t path path Options.default).2.result = .ok d ∧
      (toFile .numbered t path path Options.default).1.read path = .ok (Text.encode d.text) ∧
      (toFile .numbered t path path Options.default onWrite).2.result =
        .error (.unwritable path full) ∧
      (toFile .numbered t path path Options.default onWrite).1 = t ∧
      t.NoText other {} .notUtf8 ∧
      toFile .numbered t other path Options.default =
        (t, ⟨[], .error (.definitions (.unreadable .notUtf8))⟩) ∧
      toFile .numbered t path path Options.default onRead =
        (t, ⟨[], .error (.definitions (.unreadable denied))⟩) := by
  let path : Path := ⟨Text.encode "d"⟩
  let other : Path := ⟨Text.encode "u"⟩
  let t : Tree := ((Tree.empty [[0x77]] 0o022).set [[0x77], [0x75]] (.file 0o644 [0xFF])).set
    [[0x77], [0x64]] (.file 0o600 (Text.encode "A: int x"))
  let full : Fault := .other "No space left on device (os error 28)"
  let denied : Fault := .other "Permission denied (os error 13)"
  let onWrite : Interference :=
    { fault := fun step => if step = .write then some full else none
      through := 10 }
  let onRead : Interference := { fault := fun step => if step = .read then some denied else none }
  let n : Node :=
    { name := "A"
      fields := [⟨"int", "x", by decide, by decide⟩]
      isIdentifier_name := by decide
      fields_ne_nil := by decide
      nodup_fields := by decide }
  have hread : t.read path = .ok (Text.encode "A: int x") := by rfl
  have hread' : t.read path onWrite = .ok (Text.encode "A: int x") := by rfl
  have hslot : t.slot path = .ok [[0x77], [0x64]] := by rfl
  have hfile : t.find? [[0x77], [0x64]] = some (.file 0o600 (Text.encode "A: int x")) := by rfl
  have hplace : t.locateDirectory (t.start path.directory) path.directory.names = .ok [[0x77]] := by
    rfl
  have hmade := Temporaries.createNumbered_of_find?_eq_none (by decide) (by decide) hplace
    (by decide) Tree.usualMode
  have hreads : Reads (textEntries "A: int x") [n] := by rfl
  obtain ⟨table, htable, -, hheader⟩ :=
    Table.exists_header_of_reads hreads (by decide) Options.default (by decide)
  let d : Document := ⟨lines Options.default.toSettings [n]⟩
  have hd : (ofText "A: int x" Options.default).result = .ok d := by
    rw [ofText, Table.ofText, ofReading_eq_of_ok htable, hheader]
  -- nothing is in the way of the writing
  have hreplaceable : t.Replaceable .numbered path :=
    ⟨⟨_, hmade⟩, ⟨_, hslot, by rw [hfile]; nofun⟩, by decide⟩
  have hagrees := toFile_agrees_with_ofText .numbered Temporaries.numbered_lawful t
  obtain ⟨-, -, hwritten⟩ := hagrees path path Options.default {}
  obtain ⟨-, -, -, hdone⟩ := hwritten _ hread
  obtain ⟨t', loc, hto, hreplaced⟩ :=
    (hdone d hd).2 (hreplaceable.not_replacementFails Temporaries.numbered_lawful _)
  -- the disk is full when the file is written
  have hsteps : t.replacementSteps path onWrite =
      [.create, .setMode] ++ .write :: [.sync, .rename] := by rfl
  have hfails (contents : Bytes) :
      t.ReplacementFails .numbered path contents onWrite .write full :=
    .interfered hsteps (by decide) (.inr ⟨_, hmade⟩) rfl
  obtain ⟨-, -, hstopped⟩ := hagrees path path Options.default onWrite
  obtain ⟨-, -, -, hfailed⟩ := hstopped _ hread'
  have hfull := (hfailed d hd).1 _ _ (hfails _)
  -- the other file holds a byte that no text has
  have hbyte : t.read other = .ok [0xFF] := by rfl
  have hnone : t.NoText other {} .notUtf8 := by
    refine .notUtf8 hbyte fun text h => ?_
    have hdecode : Text.decode? [0xFF] = none := by decide +kernel
    rw [Text.decode?_eq_some_iff.2 h] at hdecode
    cases hdecode
  obtain ⟨-, hrefused, -⟩ := hagrees other path Options.default {}
  obtain ⟨-, hdenied, -⟩ := hagrees path path Options.default onRead
  refine ⟨t, path, other, d, onWrite, onRead, full, denied, hread, hd, ?_, ?_, ?_, ?_, hnone,
    (hrefused _ hnone).2, (hdenied _ (t.noText_of_interference path rfl)).2⟩
  · rw [hto]
  · rw [hto]
    refine hreplaced.read fun target hlink => ?_
    rw [← Except.ok.inj (hslot.symm.trans hreplaced.slot), hfile] at hlink
    cases hlink
  · rw [hfull]
  · rw [hfull]

end NodeHeader
