/-
  Reading the nodes of a header back.

  A header is scanned line by line. A line that opens a derived struct starts a node, each
  constant that is declared on a line of its own until the struct is closed is a field of the
  node, and every other line is passed over. `Scan.step` is the scanner, one line at a time.

  The scan of a header gives exactly the nodes that the header was written for
  (`Header.scan_lines`). The parts of a header are taken one by one: no line before the
  nodes opens one (`quiet_opening`), the lines of a node give that node and leave the
  scanner as it was (`run_nodeParagraph`), and the closing lines give nothing. What keeps
  these apart is the start of a line, or that no colon stands in it.
-/
import NodeHeader.Proofs.Cpp.Identifier
import NodeHeader.Proofs.Cpp.Struct
import NodeHeader.Proofs.Definition.Node
import NodeHeader.Proofs.Definition.Table
import NodeHeader.Proofs.Header.Generation
import Mathlib.Data.List.Basic

namespace NodeHeader.Header

open NodeHeader.Cpp (Member Struct)

/-! ### The scanner -/

/-- What stands before the first occurrence of a mark and what stands after it. -/
def cutAtFirst (mark : List Char) : List Char → Option (List Char × List Char)
  | [] => if mark.isEmpty then some ([], []) else none
  | c :: rest =>
    match mark.isPrefixOf? (c :: rest) with
    | some after => some ([], after)
    | none => (cutAtFirst mark rest).map fun (before, after) => (c :: before, after)

/-- What stands before the last occurrence of a character and what stands after it. -/
def cutAtLast (c : Char) (cs : List Char) : Option (List Char × List Char) :=
  match cs.reverse.dropWhile (· ≠ c) with
  | [] => none
  | _ :: before => some (before.reverse, (cs.reverse.takeWhile (· ≠ c)).reverse)

/-- The name of the node whose struct a line opens. -/
def openedNode? (line : String) : Option String := do
  let rest ← "struct ".toList.isPrefixOf? line.toList
  let (name, _) ← cutAtFirst " : public ".toList rest
  return String.ofList name

/-- What a line declares as a constant. -/
def declaration? (line : String) : Option (List Char) := do
  let rest ← "    const ".toList.isPrefixOf? line.toList
  [';'].isSuffixOf? rest

/-- The state of a scan. -/
structure Scan where
  /-- The nodes that are complete: their names, and the types and names of their fields. -/
  found : List (String × List (String × String)) := []
  current : Option (String × List (String × String)) := none

namespace Scan

/-- The state after one more line. There is none if a declaration is not of two parts. -/
def step (s : Scan) (line : String) : Option Scan :=
  match openedNode? line with
  | some name => some { s with current := some (name, []) }
  | none =>
    match s.current with
    | none => some s
    | some (name, fields) =>
      match declaration? line with
      | some text => do
        let (typeName, field) ← cutAtLast ' ' text
        return { s with
          current := some (name, fields ++ [(String.ofList typeName, String.ofList field)]) }
      | none =>
        if line = "\x7d;" then some { found := s.found ++ [(name, fields)], current := none }
        else some s

/-- The state after lines, the first of them first. -/
def run (s : Scan) (lines : List String) : Option Scan :=
  lines.foldlM step s

end Scan

/-- The nodes that the lines of a header show. -/
def scan (lines : List String) : Option (List (String × List (String × String))) :=
  (({} : Scan).run lines).map Scan.found

/-! ### Cutting texts -/

theorem isPrefixOf?_append (mark text : String) :
    mark.toList.isPrefixOf? (mark ++ text).toList = some text.toList := by
  rw [List.isPrefixOf?_eq_some_iff_append_eq, String.toList_append]

theorem isSuffixOf?_append (text mark : String) :
    mark.toList.isSuffixOf? (text ++ mark).toList = some text.toList := by
  rw [List.isSuffixOf?_eq_some_iff_append_eq, String.toList_append]

theorem isPrefixOf?_eq_none_iff {mark cs : List Char} :
    mark.isPrefixOf? cs = none ↔ ¬ mark <+: cs := by
  simp only [Option.eq_none_iff_forall_ne_some, ne_eq, List.isPrefixOf?_eq_some_iff_append_eq]
  exact not_exists.symm

theorem isSuffixOf?_eq_none_iff {mark cs : List Char} :
    mark.isSuffixOf? cs = none ↔ ¬ mark <:+ cs := by
  simp only [Option.eq_none_iff_forall_ne_some, ne_eq, List.isSuffixOf?_eq_some_iff_append_eq]
  exact not_exists.symm

/-- A mark is found behind a text in which its first character does not occur. -/
theorem cutAtFirst_append {c : Char} {mark before after : List Char} (h : c ∉ before) :
    cutAtFirst (c :: mark) (before ++ (c :: mark) ++ after) = some (before, after) := by
  induction before with
  | nil =>
    have hp : (c :: mark).isPrefixOf? (c :: (mark ++ after)) = some after := by
      rw [List.isPrefixOf?_eq_some_iff_append_eq, List.cons_append]
    simp only [List.nil_append, List.cons_append, cutAtFirst, hp]
  | cons b rest ih =>
    simp only [List.mem_cons, not_or] at h
    have hp : (c :: mark).isPrefixOf? (b :: (rest ++ (c :: mark) ++ after)) = none := by
      simp [List.isPrefixOf?, h.1]
    rw [List.cons_append, List.cons_append, cutAtFirst, hp, ih h.2]
    rfl

/-- A cut at a single character is a cut at its first occurrence. -/
theorem cutAtFirst_singleton_eq_some_iff {c : Char} {cs before after : List Char} :
    cutAtFirst [c] cs = some (before, after) ↔ cs = before ++ c :: after ∧ c ∉ before := by
  constructor
  · intro h
    induction cs generalizing before with
    | nil => cases h
    | cons d rest ih =>
      unfold cutAtFirst at h
      split at h
      · next found hp =>
        obtain ⟨rfl, rfl⟩ := Prod.mk.inj (Option.some.inj h)
        exact ⟨(List.isPrefixOf?_eq_some_iff_append_eq.1 hp).symm, List.not_mem_nil⟩
      · next hp =>
        have hne : c ≠ d := by
          rintro rfl
          simp [List.isPrefixOf?] at hp
        obtain ⟨⟨front, back⟩, hcut, hparts⟩ := Option.map_eq_some_iff.1 h
        obtain ⟨rfl, rfl⟩ := Prod.mk.inj hparts
        obtain ⟨rfl, hfront⟩ := ih hcut
        exact ⟨rfl, List.not_mem_cons_of_ne_of_not_mem hne hfront⟩
  · rintro ⟨rfl, hbefore⟩
    have hcut : cutAtFirst [c] (before ++ [c] ++ after) = some (before, after) :=
      cutAtFirst_append hbefore
    rwa [List.append_assoc, List.singleton_append] at hcut

theorem cutAtLast_append {c : Char} {before after : List Char} (h : c ∉ after) :
    cutAtLast c (before ++ c :: after) = some (before, after) := by
  have hrev : (before ++ c :: after).reverse = after.reverse ++ c :: before.reverse := by simp
  have hafter : c ∉ after.reverse := by simpa using h
  rw [cutAtLast, hrev, Text.dropWhile_ne_append hafter, Text.takeWhile_ne_append hafter]
  simp

theorem mem_of_cutAtFirst {mark cs : List Char} {parts : List Char × List Char}
    (h : cutAtFirst mark cs = some parts) {c : Char} (hc : c ∈ mark) : c ∈ cs := by
  induction cs generalizing parts with
  | nil =>
    unfold cutAtFirst at h
    split at h
    · next hempty => rw [List.isEmpty_iff.1 hempty] at hc; exact hc
    · cases h
  | cons d rest ih =>
    unfold cutAtFirst at h
    split at h
    · next after hp =>
      rw [← List.isPrefixOf?_eq_some_iff_append_eq.1 hp]
      exact List.mem_append_left _ hc
    · obtain ⟨parts', h', -⟩ := Option.map_eq_some_iff.1 h
      exact List.mem_cons_of_mem d (ih h')

/-! ### Lines that open no node -/

/-- The line starts otherwise than with an `s`, or no colon stands in it. -/
def Quiet (line : String) : Prop :=
  line.toList.head? ≠ some 's' ∨ ':' ∉ line.toList

/-- A quiet line opens no node. -/
theorem openedNode?_eq_none {line : String} (h : Quiet line) : openedNode? line = none := by
  unfold openedNode?
  cases hp : "struct ".toList.isPrefixOf? line.toList with
  | none => rfl
  | some rest =>
    have hline : "struct ".toList ++ rest = line.toList :=
      List.isPrefixOf?_eq_some_iff_append_eq.1 hp
    cases hcut : cutAtFirst " : public ".toList rest with
    | none =>
      show (cutAtFirst " : public ".toList rest).bind _ = none
      rw [hcut]
      rfl
    | some parts =>
      -- such a line has both the `s` at its start and the colon of the mark
      have hcolon : ':' ∈ rest := mem_of_cutAtFirst hcut (by decide)
      rcases h with h | h
      · rw [← hline] at h
        exact absurd rfl h
      · rw [← hline] at h
        exact absurd (List.mem_append_right _ hcolon) h

theorem quiet_comment (m : Metadata) : ∀ line ∈ m.comment, Quiet line := by
  simp [Metadata.comment, Quiet]

theorem quiet_guardOpening (guard : String) : ∀ line ∈ Guard.opening guard, Quiet line := by
  simp [Guard.opening, Quiet]

theorem quiet_includeLines (includes : List String) :
    ∀ line ∈ includeLines includes, Quiet line := by
  simp [includeLines, Quiet]

theorem quiet_namespaceOpening (namespaceName : String) :
    ∀ line ∈ namespaceOpening namespaceName, Quiet line := by
  unfold namespaceOpening
  split <;> simp [Quiet]

/-- Announcements open no node, although they start like its struct. -/
theorem quiet_forwardDeclarations (nodes : List Node) :
    ∀ line ∈ forwardDeclarations nodes, Quiet line := by
  intro line hline
  obtain ⟨n, -, rfl⟩ := List.mem_map.1 hline
  -- the line starts like that of a struct, so only the colon tells them apart
  have hname := Cpp.not_mem_of_isIdentifier n.isIdentifier_name (c := ':') (by decide)
  exact .inr (by simpa [Struct.forward] using hname)

theorem quiet_member (m : Member) : ∀ line ∈ m.lines, Quiet line := fun line hline =>
  .inl (by simp [Member.head?_of_mem_lines line hline])

/-- A struct without a parent opens no node. -/
theorem quiet_struct {s : Struct} (hparent : s.parent = none) (hname : ':' ∉ s.name.toList) :
    ∀ line ∈ s.lines, Quiet line := by
  have hcomment : ∀ line ∈ s.comment, Quiet line := by
    unfold Struct.comment
    split <;> simp [Quiet]
  have hheading : ∀ line ∈ s.heading, Quiet line := by
    unfold Struct.heading
    rw [hparent]
    simpa [Quiet] using hname
  exact Struct.forall_mem_lines hcomment (.inr (by simpa using hname)) hheading
    (fun m _ => quiet_member m) (.inl (by decide))

theorem quiet_closing (s : Settings) : ∀ line ∈ closing s, Quiet line := by
  unfold closing namespaceClosing Guard.closing
  split <;> simp [Quiet]

/-- No line before the nodes opens one, whatever the settings. -/
theorem quiet_opening {s : Settings} (hbase : Cpp.isIdentifier s.base = true)
    (nodes : List Node) : ∀ paragraph ∈ opening s nodes, ∀ line ∈ paragraph, Quiet line := by
  have hcolon : ':' ∉ s.base.toList := Cpp.not_mem_of_isIdentifier hbase (by decide)
  have hvisitor : ':' ∉ (visitorName s.base).toList := by
    simpa [visitorName] using hcolon
  have hbaseStruct : ∀ line ∈ (baseStruct s.base s.visitor).lines, Quiet line :=
    quiet_struct rfl hcolon
  simp only [opening, List.forall_mem_cons]
  refine ⟨?_, quiet_includeLines _, quiet_namespaceOpening _, ?_, ?_, hbaseStruct, by simp⟩
  · intro line hline
    rcases List.mem_append.1 hline with hline | hline
    · exact quiet_comment _ line hline
    · exact quiet_guardOpening _ line hline
  · cases s.visitor with
    | none => simp
    | some v => exact quiet_forwardDeclarations nodes
  · cases s.visitor with
    | none => simp
    | some v => exact quiet_struct rfl hvisitor

/-! ### One line -/

namespace Scan

theorem step_of_closed {s : Scan} {line : String} (hs : s.current = none) (h : Quiet line) :
    s.step line = some s := by
  rw [step, openedNode?_eq_none h, hs]

end Scan

/-- The heading of a derived struct opens the node of its name. -/
theorem openedNode?_heading {name base : String} (hname : Cpp.isIdentifier name = true) :
    openedNode? ("struct " ++ name ++ " : public " ++ base ++ " \x7b") = some name := by
  have hline : "struct " ++ name ++ " : public " ++ base ++ " \x7b" =
      "struct " ++ (name ++ " : public " ++ (base ++ " \x7b")) := by
    simp only [String.append_assoc]
  have hcut : cutAtFirst " : public ".toList (name ++ " : public " ++ (base ++ " \x7b")).toList =
      some (name.toList, (base ++ " \x7b").toList) := by
    rw [String.toList_append, String.toList_append]
    exact cutAtFirst_append (Cpp.not_mem_of_isIdentifier hname (by decide))
  rw [openedNode?, hline, isPrefixOf?_append]
  simp only [Option.bind_eq_bind, Option.bind_some, hcut, Option.pure_def, String.ofList_toList]

/-- The line of a field declares its type and its name. -/
theorem declaration?_field (f : Field) :
    declaration? (Cpp.indent ++ "const " ++ f.typeName ++ " " ++ f.name ++ ";") =
      some (f.typeName.toList ++ ' ' :: f.name.toList) := by
  have hline : Cpp.indent ++ "const " ++ f.typeName ++ " " ++ f.name ++ ";" =
      "    const " ++ (f.typeName ++ " " ++ f.name ++ ";") :=
    String.toList_inj.1 (by simp [Cpp.indent])
  have htext : f.typeName.toList ++ ' ' :: f.name.toList =
      (f.typeName ++ " " ++ f.name).toList := by
    simp
  rw [declaration?, hline, isPrefixOf?_append, htext]
  exact isSuffixOf?_append (f.typeName ++ " " ++ f.name) ";"

theorem getLast?_append_eq (text : String) {ending : String} {c : Char}
    (h : ending.toList.getLast? = some c) : (text ++ ending).toList.getLast? = some c := by
  rw [String.toList_append, List.getLast?_append, h, Option.some_or]

theorem getLast?_append_ne (text : String) {ending : String} {c d : Char}
    (h : ending.toList.getLast? = some c) (hne : c ≠ d) :
    (text ++ ending).toList.getLast? ≠ some d := by
  rw [getLast?_append_eq text h]
  exact fun heq => hne (Option.some.inj heq)

/-- A line inside a struct that is neither a declaration of a constant nor its end: it starts
otherwise, or ends otherwise than with a semicolon. -/
structure Passive (line : String) : Prop where
  quiet : Quiet line
  head_ne : line.toList.head? ≠ some '\x7d'
  no_declaration : ¬ "    const ".toList <+: line.toList ∨ line.toList.getLast? ≠ some ';'

/-- A passive line declares no constant. -/
theorem Passive.declaration?_eq_none {line : String} (h : Passive line) :
    declaration? line = none := by
  unfold declaration?
  cases hp : "    const ".toList.isPrefixOf? line.toList with
  | none => rfl
  | some rest =>
    have hline : "    const ".toList ++ rest = line.toList :=
      List.isPrefixOf?_eq_some_iff_append_eq.1 hp
    show [';'].isSuffixOf? rest = none
    cases hs : [';'].isSuffixOf? rest with
    | none => rfl
    | some text =>
      have hrest : text ++ [';'] = rest := List.isSuffixOf?_eq_some_iff_append_eq.1 hs
      rcases h.no_declaration with hd | hd
      · exact absurd ⟨rest, hline⟩ hd
      · rw [← hline, ← hrest, ← List.append_assoc, List.getLast?_concat] at hd
        exact absurd rfl hd

/-- A passive line leaves the scanner as it is, also inside a struct. -/
theorem Scan.step_of_passive {s : Scan} {line : String} (h : Passive line) :
    s.step line = some s := by
  have hne : line ≠ "\x7d;" := by
    rintro rfl
    exact h.head_ne rfl
  obtain ⟨found, current⟩ := s
  rw [step, openedNode?_eq_none h.quiet]
  cases current with
  | none => rfl
  | some node => simp only [h.declaration?_eq_none, if_neg hne]

theorem passive_of_head {line : String} (hhead : line.toList.head? = some ' ')
    (h : ¬ "    const ".toList <+: line.toList ∨ line.toList.getLast? ≠ some ';') :
    Passive line where
  quiet := .inl (by simp [hhead])
  head_ne := by simp [hhead]
  no_declaration := h

theorem passive_label : Passive "public:" where
  quiet := .inl (by decide)
  head_ne := by decide
  no_declaration := .inr (by decide)

theorem passive_constructor (struct : String) (parameters : List Cpp.Parameter) :
    ∀ line ∈ (Member.constructor struct parameters).lines, Passive line := by
  intro line hline
  simp only [Member.lines, List.mem_cons, List.not_mem_nil, or_false] at hline
  -- both lines end with brackets
  rcases hline with rfl | rfl
  · exact passive_of_head (by simp [Cpp.indent]) (.inr (getLast?_append_ne _ rfl (by decide)))
  · exact passive_of_head (by simp [Cpp.indent]) (.inr (getLast?_append_ne _ rfl (by decide)))

theorem passive_override (returnType name : String) (parameter : Cpp.Parameter)
    (statement : String) :
    ∀ line ∈ (Member.override returnType name parameter statement).lines, Passive line := by
  intro line hline
  simp only [Member.lines, List.mem_cons, List.not_mem_nil, or_false] at hline
  -- the return type may be named `const`; the statement, which ends with a semicolon, stands
  -- too far to the right
  rcases hline with rfl | rfl | rfl
  · exact passive_of_head (by simp [Cpp.indent]) (.inr (getLast?_append_ne _ rfl (by decide)))
  · exact passive_of_head (by simp [Cpp.indent]) (.inl (by simp [Cpp.indent]))
  · exact passive_of_head (by simp [Cpp.indent]) (.inr (getLast?_append_ne _ rfl (by decide)))

/-! ### A whole header -/

namespace Scan

theorem run_cons (s : Scan) (line : String) (rest : List String) :
    s.run (line :: rest) = (s.step line).bind fun s' => s'.run rest := rfl

theorem run_append (s : Scan) (lines lines' : List String) :
    s.run (lines ++ lines') = (s.run lines).bind fun s' => s'.run lines' :=
  List.foldlM_append

theorem run_of_forall_step {s : Scan} {lines : List String}
    (h : ∀ line ∈ lines, s.step line = some s) : s.run lines = some s := by
  induction lines with
  | nil => rfl
  | cons line rest ih =>
    rw [run_cons, h line List.mem_cons_self]
    exact ih fun l hl => h l (List.mem_cons_of_mem line hl)

theorem run_of_quiet {s : Scan} (hs : s.current = none) {lines : List String}
    (h : ∀ line ∈ lines, Quiet line) : s.run lines = some s :=
  run_of_forall_step fun line hline => step_of_closed hs (h line hline)

theorem run_of_passive {s : Scan} {lines : List String} (h : ∀ line ∈ lines, Passive line) :
    s.run lines = some s :=
  run_of_forall_step fun line hline => step_of_passive (h line hline)

end Scan

section Nodes

variable (found : List (String × List (String × String)))

/-- The line of a field adds it to the node whose struct is open. The last space parts type and
name, as there is none in a name. -/
theorem step_field (name : String) (shown : List (String × String)) (f : Field) :
    Scan.step ⟨found, some (name, shown)⟩
      (Cpp.indent ++ "const " ++ f.typeName ++ " " ++ f.name ++ ";") =
      some ⟨found, some (name, shown ++ [f.pair])⟩ := by
  have hquiet : Quiet (Cpp.indent ++ "const " ++ f.typeName ++ " " ++ f.name ++ ";") :=
    .inl (by simp [Cpp.indent])
  have hcut : cutAtLast ' ' (f.typeName.toList ++ ' ' :: f.name.toList) =
      some (f.typeName.toList, f.name.toList) :=
    cutAtLast_append (Cpp.not_mem_of_isIdentifier f.isIdentifier_name (by decide))
  rw [Scan.step, openedNode?_eq_none hquiet]
  simp only [declaration?_field, hcut]
  show some (Scan.mk found (some (name, shown ++ [(String.ofList f.typeName.toList,
    String.ofList f.name.toList)]))) = _
  rw [String.ofList_toList, String.ofList_toList]
  rfl

/-- The lines of several fields add them all, in their order. -/
theorem run_fields (name : String) (shown : List (String × String)) (fields : List Field) :
    Scan.run ⟨found, some (name, shown)⟩
      ((fields.map fun f => Member.field f.typeName f.name).flatMap Member.lines) =
      some ⟨found, some (name, shown ++ fields.map Field.pair)⟩ := by
  induction fields generalizing shown with
  | nil => simp [Scan.run]
  | cons f rest ih =>
    rw [List.map_cons, List.flatMap_cons, Member.lines, List.singleton_append, Scan.run_cons,
      step_field]
    show Scan.run _ _ = _
    rw [ih, List.map_cons, List.append_assoc]
    rfl

/-- The lines of a node show the node and leave no struct open. -/
theorem run_nodeParagraph (s : Settings) (n : Node) :
    Scan.run ⟨found, none⟩ (nodeParagraph s n) = some ⟨found ++ [(n.name, n.pairs)], none⟩ := by
  have hlines : nodeParagraph s n =
      ["struct " ++ n.name ++ " : public " ++ s.base ++ " \x7b", "public:"] ++
        ((n.fields.map fun f => Member.field f.typeName f.name).flatMap Member.lines ++
          ((Member.constructor n.name (parameters n)).lines ++
            ((s.visitor.toList.map fun v => acceptOverride s.base v n).flatMap Member.lines ++
              ["\x7d;"]))) := by
    simp [nodeParagraph, nodeStruct, Struct.lines, Struct.comment, Struct.heading]
  have hopen : Scan.run ⟨found, none⟩
      ["struct " ++ n.name ++ " : public " ++ s.base ++ " \x7b", "public:"] =
      some ⟨found, some (n.name, [])⟩ := by
    rw [Scan.run_cons, Scan.step, openedNode?_heading n.isIdentifier_name]
    exact Scan.run_of_passive (by simpa using passive_label)
  have hoverrides : ∀ line ∈ (s.visitor.toList.map fun v => acceptOverride s.base v n).flatMap
      Member.lines, Passive line := by
    intro line hline
    simp only [List.flatMap_map, List.mem_flatMap] at hline
    obtain ⟨v, -, hline⟩ := hline
    exact passive_override _ _ _ _ line hline
  -- heading, fields, constructor, override, end
  rw [hlines, Scan.run_append, hopen]
  show Scan.run _ _ = _
  rw [Scan.run_append, run_fields]
  show Scan.run _ _ = _
  rw [Scan.run_append, Scan.run_of_passive (passive_constructor _ _)]
  show Scan.run _ _ = _
  rw [Scan.run_append, Scan.run_of_passive hoverrides]
  rfl

theorem run_spaced {state state' : Scan} (hs : state'.current = none) {paragraph : List String}
    (h : state.run paragraph = some state') : state.run (spaced paragraph) = some state' := by
  unfold spaced
  split
  · next hempty => rwa [← List.isEmpty_iff.1 hempty]
  · rw [Scan.run_append, h]
    exact Scan.run_of_quiet hs (by simp [Quiet])

/-- The paragraphs of nodes show these nodes, in their order. -/
theorem run_nodes (s : Settings) (nodes : List Node) :
    Scan.run ⟨found, none⟩ ((nodes.map (nodeParagraph s)).flatMap spaced) =
      some ⟨found ++ nodes.map fun n => (n.name, n.pairs), none⟩ := by
  induction nodes generalizing found with
  | nil => simp [Scan.run]
  | cons n rest ih =>
    rw [List.map_cons, List.flatMap_cons, Scan.run_append,
      run_spaced rfl (run_nodeParagraph found s n)]
    show Scan.run _ _ = _
    rw [ih, List.map_cons, List.append_assoc]
    rfl

end Nodes

theorem run_opening {s : Settings} (hbase : Cpp.isIdentifier s.base = true) (nodes : List Node) :
    Scan.run {} ((opening s nodes).flatMap spaced) = some {} := by
  refine Scan.run_of_quiet rfl fun line hline => ?_
  obtain ⟨paragraph, hparagraph, hline⟩ := List.mem_flatMap.1 hline
  unfold spaced at hline
  split at hline
  · cases hline
  · rcases List.mem_append.1 hline with hline | hline
    · exact quiet_opening hbase nodes paragraph hparagraph line hline
    · rw [List.mem_singleton.1 hline]
      exact .inl (by decide)

/-- The scan of a header gives the nodes that the header is written for. -/
theorem scan_lines {s : Settings} (hbase : Cpp.isIdentifier s.base = true) (nodes : List Node) :
    scan (lines s nodes) = some (nodes.map fun n => (n.name, n.pairs)) := by
  rw [scan, lines, paragraphs, List.flatMap_append, List.append_assoc, Scan.run_append,
    run_opening hbase]
  show (Scan.run ⟨[], none⟩ _).map Scan.found = _
  rw [Scan.run_append, run_nodes]
  show (Scan.run _ _).map Scan.found = _
  rw [Scan.run_of_quiet rfl (quiet_closing s)]
  rfl

end NodeHeader.Header

namespace NodeHeader.Table

/-- The scan of a header gives the table back: each node once and in order, with the types and
names of its fields in order, and nothing else, whatever the options are. -/
theorem scan_lines_header (t : Table) (o : Options) (d : Document)
    (h : (t.header o).result = .ok d) :
    Header.scan d.lines = some (t.toList.map fun n => (n.name, n.pairs)) := by
  rw [(header_eq_ok_iff.1 h).2]
  exact Header.scan_lines o.isIdentifier_base t.toList

/-- In this header a line that is no field starts as one, as the visitor's methods return a
type named `const`. -/
theorem scan_lines_header_const : ∃ (t : Table) (o : Options) (d : Document),
    (t.header o).result = .ok d ∧
      "    const Accept(ExprVisitor& visitor) override \x7b" ∈ d.lines ∧
      Header.scan d.lines = some [("const_", [("::a::b", "x"), ("const", "y")])] := by
  let n : Node :=
    { name := "const_"
      fields := [⟨"::a::b", "x", by decide, by decide⟩, ⟨"const", "y", by decide, by decide⟩]
      isIdentifier_name := by decide
      fields_ne_nil := by decide
      nodup_fields := by decide }
  let o : Options :=
    { visitor := some { returnType := "const" }
      holds_checks := by decide }
  obtain ⟨t, -, ht⟩ : ∃ t, empty.push n = .ok t ∧ t.toList = [n] :=
    exists_push_of_not_mem (by simp [names, toList_empty])
  have h : (t.header o).result = .ok ⟨Header.lines o.toSettings t.toList⟩ := by
    refine header_eq_ok_iff.2 ⟨?_, rfl⟩
    rw [check, ht]
    decide
  refine ⟨t, o, _, h, ?_, ?_⟩
  · rw [ht]
    decide
  · rw [scan_lines_header t o _ h, ht]
    rfl

end NodeHeader.Table
