/-
  How the brackets of a header nest.

  The code of a header is what comes after the included headers (`code?`). Each of its lines is
  balanced, or opens a brace, or closes one: names and types hold no brackets, and the parentheses
  of a line are all its own. So the lines of each struct nest, and with them those of the code
  (`nested_codeLines`).

  `Table.nesting_header` says what this means for a scan of the code: it ends with nothing open,
  no parenthesis is open at the end of a line, each struct is defined at the level of the
  namespace, and the namespace is closed by its own line alone.
-/
import NodeHeader.Proofs.Header.Blocks
import NodeHeader.Proofs.Header.Skeleton
import NodeHeader.Proofs.Header.Texts
import NodeHeader.Proofs.Text.Brackets

namespace NodeHeader

open NodeHeader.Brackets (Balanced Closes Enclosed Nested Opens balanced_of_not_mem
  forall_isBracket isBracket run run_ending run_parenthesis runLines)
open NodeHeader.Cpp (Member Parameter Struct)

/-! ### Members and structs -/

theorem inherited_balanced : Inherited Balanced where
  empty := by decide
  append := Balanced.append

theorem balanced_of_isIdentifier {name : String} (h : Cpp.isIdentifier name = true) :
    Balanced name := by
  have hclass : ∀ b, isBracket b = true → Cpp.isIdentifierChar b = false :=
    forall_isBracket.2 (by decide)
  exact balanced_of_not_mem fun b hb => Cpp.not_mem_of_isIdentifier h (hclass b hb)

theorem balanced_of_isTypeName {typeName : String} (h : Cpp.isTypeName typeName = true) :
    Balanced typeName := by
  have hclass : ∀ b, isBracket b = true → Cpp.isTypeChar b = false :=
    forall_isBracket.2 (by decide)
  exact balanced_of_not_mem fun b hb => Cpp.not_mem_of_isTypeName h (hclass b hb)

namespace Cpp

theorem Parameter.balanced_text {p : Parameter} (htype : Balanced p.typeName)
    (hname : Balanced p.name) : Balanced p.text :=
  (htype.append (by decide)).append hname

/-- The lines of a member nest: an override has a body of its own, and every other line is
balanced. -/
theorem Member.nested_lines {m : Member} (h : ∀ text ∈ m.texts, Balanced text) :
    Nested m.lines := by
  cases m with
  | field typeName name =>
    simp only [texts, List.forall_mem_cons] at h
    obtain ⟨htype, hname, -⟩ := h
    have hconst : Balanced (indent ++ "const ") := by decide
    have hline : Balanced (indent ++ "const " ++ typeName ++ " " ++ name ++ ";") :=
      (((hconst.append htype).append (by decide)).append hname).append (by decide)
    exact .line hline .nil
  | constructor struct parameters =>
    simp only [texts, List.forall_mem_cons] at h
    obtain ⟨hstruct, hparameters⟩ := h
    have hindent : Balanced indent := by decide
    have htype : ∀ p ∈ parameters, Balanced p.typeName := fun p hp =>
      hparameters _ (List.mem_flatMap.2 ⟨p, hp, by simp⟩)
    have hname : ∀ p ∈ parameters, Balanced p.name := fun p hp =>
      hparameters _ (List.mem_flatMap.2 ⟨p, hp, by simp⟩)
    have hlist : Balanced (commaSeparated (parameters.map Parameter.text)) :=
      inherited_balanced.intercalate (by decide) (List.forall_mem_map.2 fun p hp =>
        Parameter.balanced_text (htype p hp) (hname p hp))
    have hinit :
        Balanced (commaSeparated (parameters.map fun p => p.name ++ "(" ++ p.name ++ ")")) :=
      inherited_balanced.intercalate (by decide) (List.forall_mem_map.2 fun p hp =>
        run_parenthesis (hname p hp) (hname p hp) rfl)
    have hfirst : Balanced (indent ++ struct ++ "(" ++
        commaSeparated (parameters.map Parameter.text) ++ ")") :=
      run_parenthesis (hindent.append hstruct) hlist rfl
    have hcolon : Balanced (indent ++ ": ") := by decide
    exact .line hfirst (.line ((hcolon.append hinit).append (by decide)) .nil)
  | destructor struct =>
    simp only [texts, List.forall_mem_cons] at h
    have hvirtual : Balanced (indent ++ "virtual ~") := by decide
    exact .line ((hvirtual.append h.1).append (by decide)) .nil
  | pureMethod returnType name p =>
    simp only [texts, List.forall_mem_cons] at h
    obtain ⟨hreturn, hname, htype, hparameter, -⟩ := h
    have hvirtual : Balanced (indent ++ "virtual ") := by decide
    have hfront : Balanced (indent ++ "virtual " ++ returnType ++ " " ++ name) :=
      ((hvirtual.append hreturn).append (by decide)).append hname
    have hline : Balanced (indent ++ "virtual " ++ returnType ++ " " ++ name ++ "(" ++ p.text ++
        ") = 0;") := run_parenthesis hfront (Parameter.balanced_text htype hparameter) rfl
    exact .line hline .nil
  | override returnType name p statement =>
    simp only [texts, List.forall_mem_cons] at h
    obtain ⟨hreturn, hname, htype, hparameter, hstatement, -⟩ := h
    have hindent : Balanced indent := by decide
    have hfront : Balanced (indent ++ returnType ++ " " ++ name) :=
      ((hindent.append hreturn).append (by decide)).append hname
    have hfirst : Opens (indent ++ returnType ++ " " ++ name ++ "(" ++ p.text ++
        ") override \x7b") := run_parenthesis hfront (Parameter.balanced_text htype hparameter) rfl
    have hbody : Balanced (indent ++ indent ++ statement) :=
      (hindent.append hindent).append hstatement
    exact .block hfirst (.line hbody .nil) rfl .nil

variable {c : Struct} (h : ∀ text ∈ c.texts, Balanced text)

include h

theorem Struct.balanced_comment : ∀ line ∈ c.comment, Balanced line := by
  unfold comment
  cases hbrief : c.brief with
  | none => exact List.forall_mem_nil _
  | some brief =>
    have hmark : Balanced " * @brief " := by decide
    have hline : Balanced (" * @brief " ++ brief) :=
      hmark.append (h brief (by simp [texts, hbrief]))
    simp only [List.forall_mem_cons]
    exact ⟨by decide, hline, by decide, List.forall_mem_nil _⟩

/-- After its comment a struct is one line, or one pair of braces. -/
theorem Struct.exists_enclosed :
    ∃ definition, c.lines = c.comment ++ definition ∧ Enclosed definition := by
  have hname : Balanced c.name := h c.name (by simp [texts])
  have hstruct : Balanced "struct " := by decide
  have hmembers : Nested (c.members.flatMap Member.lines) := Nested.flatMap fun m hm =>
    Member.nested_lines fun text htext => h text
      (List.mem_append_right _ (List.mem_flatMap.2 ⟨m, hm, htext⟩))
  have hlast : Closes "\x7d;" := rfl
  refine ⟨_, rfl, ?_⟩
  split
  · exact .line ((hstruct.append hname).append (by decide))
  · unfold heading
    cases hparent : c.parent with
    | none => exact .block (run_ending (hstruct.append hname) rfl) hmembers hlast
    | some parent =>
      have hpublic : Balanced " : public " := by decide
      have hfront : Balanced ("struct " ++ c.name ++ " : public " ++ parent) :=
        ((hstruct.append hname).append hpublic).append (h parent (by simp [texts, hparent]))
      have hlabel : Balanced "public:" := by decide
      exact .block (run_ending hfront rfl) (.line hlabel hmembers) hlast

theorem Struct.nested_lines : Nested c.lines := by
  obtain ⟨definition, hlines, hdefinition⟩ := exists_enclosed h
  rw [hlines]
  exact (Nested.of_forall_balanced (balanced_comment h)).append hdefinition.nested

end Cpp

namespace Header

/-! ### The code of a header -/

/-- The lines after the last one of which `p` holds. -/
def afterLast? (p : String → Bool) : List String → Option (List String)
  | [] => none
  | line :: rest => (afterLast? p rest).or (if p line then some rest else none)

/-- Whether a line includes a header. -/
def includes (line : String) : Bool :=
  "#include ".toList.isPrefixOf line.toList

/-- Whether a line defines a macro. -/
def defines (line : String) : Bool :=
  "#define ".toList.isPrefixOf line.toList

/-- The lines after the last included header, or after the last macro if no header is included. -/
def code? (lines : List String) : Option (List String) :=
  (afterLast? includes lines).or (afterLast? defines lines)

theorem afterLast?_eq_none {p : String → Bool} {lines : List String}
    (h : ∀ line ∈ lines, p line = false) : afterLast? p lines = none := by
  induction lines with
  | nil => rfl
  | cons line rest ih =>
    rw [List.forall_mem_cons] at h
    rw [afterLast?, ih h.2, h.1]
    rfl

theorem afterLast?_append {p : String → Bool} {line : String} (hline : p line = true)
    {after : List String} (hafter : ∀ l ∈ after, p l = false) (before : List String) :
    afterLast? p (before ++ line :: after) = some after := by
  induction before with
  | nil => rw [List.nil_append, afterLast?, afterLast?_eq_none hafter, if_pos hline, Option.none_or]
  | cons first others ih => rw [List.cons_append, afterLast?, ih, Option.some_or]

/-- The lines of a header that stand in its namespace. -/
def namespaceLines (s : Settings) (nodes : List Node) : List String :=
  spaced (s.visitor.elim [] fun _ => forwardDeclarations nodes) ++
    (structs s nodes).flatMap fun c => c.lines ++ [""]

/-- The lines of a header after the included headers: an empty one, and what comes from the opening
of the namespace on. -/
def codeLines (s : Settings) (nodes : List Node) : List String :=
  "" :: (spaced (namespaceOpening s.namespaceName) ++ (namespaceLines s nodes ++ closing s))

/-- The lines of a header before its code. -/
def linesBeforeCode (s : Settings) : List String :=
  s.metadata.comment ++ ["#ifndef " ++ s.guard, "#define " ++ s.guard] ++
    if s.includes = [] then [] else "" :: includeLines s.includes

theorem append_codeLines (s : Settings) (nodes : List Node) :
    linesBeforeCode s ++ codeLines s nodes = lines s nodes := by
  rw [lines_eq_structs, opening, linesBeforeCode]
  simp only [List.take_succ_cons, List.take_zero, List.flatMap_cons, List.flatMap_nil,
    List.append_assoc, List.append_nil, codeLines, namespaceLines]
  split
  · next hnil =>
    rw [hnil]
    rfl
  · next hne =>
    have hspaced : spaced (includeLines s.includes) = includeLines s.includes ++ [""] := by
      rw [spaced, if_neg]
      simpa [includeLines] using hne
    rw [hspaced]
    simp only [List.append_assoc, List.cons_append, List.nil_append]
    rfl

theorem directive_of_mem_codeLines (s : Settings) (nodes : List Node) :
    ∀ line ∈ codeLines s nodes, isDirective line = false ∨ line = Guard.closing s.guard := by
  have hempty : isDirective "" = false := by decide
  have hnone {lines : List String} (h : ∀ line ∈ lines, isDirective line = false) :
      ∀ line ∈ lines, isDirective line = false ∨ line = Guard.closing s.guard := fun line hline =>
    .inl (h line hline)
  refine List.forall_mem_cons.2 ⟨.inl hempty, ?_⟩
  simp only [namespaceLines, closing, List.forall_mem_append]
  exact ⟨hnone (forall_mem_spaced hempty (isDirective_namespaceOpening s.namespaceName)),
    ⟨hnone (forall_mem_spaced hempty (isDirective_announcements s.visitor nodes)),
      hnone (isDirective_structs (structs s nodes))⟩,
    hnone (isDirective_namespaceClosing s.namespaceName),
    List.forall_mem_singleton.2 (.inr rfl)⟩

/-- No header is included in the code, and no macro is defined. -/
theorem eq_false_of_mem_codeLines {p : String → Bool}
    (hp : ∀ line, isDirective line = false → p line = false)
    (hclosing : ∀ guard, p (Guard.closing guard) = false) (s : Settings) (nodes : List Node) :
    ∀ line ∈ codeLines s nodes, p line = false := by
  intro line hline
  rcases directive_of_mem_codeLines s nodes line hline with h | rfl
  · exact hp line h
  · exact hclosing s.guard

theorem isPrefixOf_eq_false_of_isDirective {mark : List Char} {line : String}
    (h : isDirective line = false) : ('#' :: mark).isPrefixOf line.toList = false := by
  rw [isDirective, decide_eq_false_iff_not] at h
  cases hline : line.toList with
  | nil => rfl
  | cons c rest =>
    rw [hline, List.head?_cons, Option.some.injEq] at h
    rw [List.isPrefixOf, beq_false_of_ne (Ne.symm h), Bool.false_and]

/-- The code of a header is found whether or not a header is included. -/
theorem code?_lines (s : Settings) (nodes : List Node) :
    code? (lines s nodes) = some (codeLines s nodes) := by
  have hincludes := eq_false_of_mem_codeLines (p := includes)
    (fun _ => isPrefixOf_eq_false_of_isDirective)
    (by simp [includes, Guard.closing, List.isPrefixOf]) s nodes
  have hdefines := eq_false_of_mem_codeLines (p := defines)
    (fun _ => isPrefixOf_eq_false_of_isDirective)
    (by simp [defines, Guard.closing, List.isPrefixOf]) s nodes
  rw [← append_codeLines, linesBeforeCode]
  -- the code starts behind the macro of the guard, or behind the last of the included headers
  rcases List.eq_nil_or_concat s.includes with hnil | ⟨others, last, hlast⟩
  · rw [if_pos hnil, List.append_nil]
    have hfirst : ∀ line ∈ s.metadata.comment ++ ["#ifndef " ++ s.guard, "#define " ++ s.guard],
        includes line = false := by
      simp [Metadata.comment, includes, List.isPrefixOf]
    have hnone : afterLast? includes (s.metadata.comment ++ ["#ifndef " ++ s.guard,
        "#define " ++ s.guard] ++ codeLines s nodes) = none :=
      afterLast?_eq_none (List.forall_mem_append.2 ⟨hfirst, hincludes⟩)
    have hmacro : defines ("#define " ++ s.guard) = true := by simp [defines]
    have hguard := afterLast?_append hmacro hdefines
      (s.metadata.comment ++ ["#ifndef " ++ s.guard])
    rw [code?, hnone, Option.none_or, ← hguard]
    simp only [List.append_assoc, List.cons_append, List.nil_append]
  · have hne : s.includes ≠ [] := by simp [hlast]
    have hlines : includeLines s.includes = includeLines others ++ ["#include " ++ last] := by
      simp [includeLines, hlast]
    have hheader : includes ("#include " ++ last) = true := by simp [includes]
    have hafter := afterLast?_append hheader hincludes
      (s.metadata.comment ++ ["#ifndef " ++ s.guard, "#define " ++ s.guard] ++
        "" :: includeLines others)
    rw [if_neg hne, hlines, code?]
    simp only [List.append_assoc, List.cons_append, List.nil_append] at hafter ⊢
    rw [hafter, Option.some_or]

/-! ### The code nests -/

theorem common_balanced : Common Balanced where
  toInherited := inherited_balanced
  fixed := by decide
  identifier _ := balanced_of_isIdentifier
  type _ := balanced_of_isTypeName

theorem balanced_announcements (v : Option Visitor) (nodes : List Node) :
    ∀ line ∈ v.elim [] fun _ => forwardDeclarations nodes, Balanced line := by
  have hstruct : Balanced "struct " := by decide
  cases v with
  | none => exact List.forall_mem_nil _
  | some v =>
    exact List.forall_mem_map.2 fun n _ =>
      (hstruct.append (balanced_of_isIdentifier n.isIdentifier_name)).append (by decide)

theorem nested_structs {cs : List Struct} (h : ∀ c ∈ cs, ∀ text ∈ c.texts, Balanced text) :
    Nested (cs.flatMap fun c => c.lines ++ [""]) :=
  Nested.flatMap fun c hc => (Struct.nested_lines (h c hc)).append (.line (by decide) .nil)

theorem nested_namespaceLines (o : Options) (nodes : List Node) :
    Nested (namespaceLines o.toSettings nodes) :=
  (Nested.of_forall_balanced (forall_mem_spaced (by decide)
    (balanced_announcements o.visitor nodes))).append
      (nested_structs (forall_mem_texts_structs common_balanced o nodes))

theorem balanced_guardClosing (o : Options) : Balanced (Guard.closing o.guard) := by
  have hclass : ∀ b, isBracket b = true → Guard.isMacroChar b = false :=
    forall_isBracket.2 (by decide)
  have hguard : Balanced o.guard :=
    balanced_of_not_mem fun b hb => o.isMacroName_guard.not_mem (hclass b hb)
  have hendif : Balanced "#endif // " := by decide
  exact hendif.append hguard

theorem codeLines_of_namespaceName_eq {s : Settings} (h : s.namespaceName = "")
    (nodes : List Node) :
    codeLines s nodes = "" :: namespaceLines s nodes ++ [Guard.closing s.guard] := by
  simp [codeLines, closing, namespaceOpening, namespaceClosing, spaced, h]

theorem codeLines_of_namespaceName_ne {s : Settings} (h : s.namespaceName ≠ "")
    (nodes : List Node) :
    codeLines s nodes = ["", "namespace " ++ s.namespaceName ++ " \x7b"] ++
      ("" :: namespaceLines s nodes ++
        ["\x7d // namespace " ++ s.namespaceName, Guard.closing s.guard]) := by
  simp [codeLines, closing, namespaceOpening, namespaceClosing, spaced, h]

section Namespace

variable {o : Options} (h : o.namespaceName ≠ "")

include h

theorem opens_namespace : Opens ("namespace " ++ o.namespaceName ++ " \x7b") := by
  have hnamespace : Balanced "namespace " := by decide
  have hname : Balanced o.namespaceName :=
    balanced_of_isIdentifier (o.isIdentifier_namespaceName.resolve_left h)
  exact run_ending (hnamespace.append hname) rfl

theorem runLines_namespaceOpening :
    runLines [] ["", "namespace " ++ o.namespaceName ++ " \x7b"] = some ['\x7b'] := by
  have hempty (opened : List Char) : run opened "".toList = some opened := rfl
  rw [Brackets.runLines_cons, hempty, Option.bind_some, Brackets.runLines_cons, opens_namespace h]
  rfl

theorem closes_namespace : Closes ("\x7d // namespace " ++ o.namespaceName) := by
  have hname : Balanced o.namespaceName :=
    balanced_of_isIdentifier (o.isIdentifier_namespaceName.resolve_left h)
  have hbrace : run ['\x7b'] "\x7d // namespace ".toList = some [] := by decide
  rw [Closes, String.toList_append, Brackets.run_append, hbrace]
  exact hname

end Namespace

/-- The lines of the code of a header nest. -/
theorem nested_codeLines (o : Options) (nodes : List Node) :
    Nested (codeLines o.toSettings nodes) := by
  have hempty : Balanced "" := by decide
  have hinner : Nested ("" :: namespaceLines o.toSettings nodes) :=
    .line hempty (nested_namespaceLines o nodes)
  have hend : Nested [Guard.closing o.guard] := .line (balanced_guardClosing o) .nil
  by_cases h : o.namespaceName = ""
  · rw [codeLines_of_namespaceName_eq h]
    exact hinner.append hend
  · have hblock : Nested (("namespace " ++ o.namespaceName ++ " \x7b") ::
        ("" :: namespaceLines o.toSettings nodes ++
          ("\x7d // namespace " ++ o.namespaceName) :: [Guard.closing o.guard])) :=
      .block (opens_namespace h) hinner (closes_namespace h) hend
    rw [codeLines_of_namespaceName_ne h]
    exact .line hempty hblock

/-! ### The level of definitions -/

/-- All definitions of a header stand in its code. -/
theorem filterMap_definition?_codeLines (s : Settings) (nodes : List Node) :
    (codeLines s nodes).filterMap definition? = (lines s nodes).filterMap definition? := by
  have hbefore : ∀ line ∈ linesBeforeCode s, Plain line := by
    unfold linesBeforeCode
    split <;> simp [Metadata.comment, includeLines, plain_iff, Cpp.indent]
  have hnone : (linesBeforeCode s).filterMap definition? = [] :=
    List.filterMap_eq_nil_iff.2 fun line hline => definition?_of_plain (hbefore line hline)
  rw [← append_codeLines, List.filterMap_append, hnone, List.nil_append]

/-- The brackets that are open where structs are defined: the brace of the namespace, if there is
one. -/
def level (namespaceName : String) : List Char :=
  if namespaceName = "" then [] else ['\x7b']

theorem runLines_opening (o : Options) (nodes : List Node) :
    runLines [] ("" :: (spaced (namespaceOpening o.namespaceName) ++
      spaced (o.visitor.elim [] fun _ => forwardDeclarations nodes))) =
        some (level o.namespaceName) := by
  have hannouncements : Nested (spaced (o.visitor.elim [] fun _ => forwardDeclarations nodes)) :=
    .of_forall_balanced (forall_mem_spaced (by decide) (balanced_announcements o.visitor nodes))
  have hnamespace : runLines [] ("" :: spaced (namespaceOpening o.namespaceName)) =
      some (level o.namespaceName) := by
    by_cases h : o.namespaceName = ""
    · rw [h]
      rfl
    · have hopening : "" :: spaced (namespaceOpening o.namespaceName) =
          ["", "namespace " ++ o.namespaceName ++ " \x7b"] ++ [""] := by
        simp [namespaceOpening, spaced, h]
      rw [hopening, level, if_neg h, Brackets.runLines_append, runLines_namespaceOpening h]
      rfl
  rw [← List.cons_append, Brackets.runLines_append, hnamespace]
  exact hannouncements.runLines _

/-- A struct is defined at this level, and its lines are one line or one pair of braces. -/
theorem enclosed_definition (o : Options) (nodes : List Node) {before after : List String}
    {line : String} (hline : definition? line ≠ none)
    (h : codeLines o.toSettings nodes = before ++ line :: after) :
    runLines [] before = some (level o.namespaceName) ∧
      definitionLines line after <+: line :: after ∧ Enclosed (definitionLines line after) := by
  have hopening : ∀ l ∈ "" :: (spaced (namespaceOpening o.namespaceName) ++
      spaced (o.visitor.elim [] fun _ => forwardDeclarations nodes)), definition? l = none := by
    refine List.forall_mem_cons.2 ⟨definition?_of_plain plain_empty, fun l hl => ?_⟩
    refine forall_mem_opening (fun _ => definition?_of_plain)
      (fun n (_ : n ∈ nodes) => definition?_forward n) o.toSettings l ?_
    simp only [opening, List.take_succ_cons, List.take_zero, List.flatMap_cons, List.flatMap_nil,
      List.append_nil]
    exact List.mem_append_right _ (List.mem_append_right _ hl)
  have hclosing : ∀ l ∈ closing o.toSettings, definition? l = none := fun l hl =>
    definition?_of_plain (plain_of_mem_closing _ l hl)
  have hcode : codeLines o.toSettings nodes =
      "" :: (spaced (namespaceOpening o.namespaceName) ++
        spaced (o.visitor.elim [] fun _ => forwardDeclarations nodes)) ++
      ((structs o.toSettings nodes).flatMap (fun c => c.lines ++ [""]) ++
        closing o.toSettings) := by
    simp only [codeLines, namespaceLines, List.cons_append, List.append_assoc]
  rw [hcode] at h
  obtain ⟨middle, rfl, hmiddle⟩ := exists_append_of_append_cons
    (fun l hl => not_not.2 (hopening l hl)) hline h
  obtain ⟨front, c, back, hstructs, rfl, hlines, hstart⟩ := exists_struct_of_definition?
    (isIdentifierChar_of_mem_structs o.isIdentifier_base) hclosing hline hmiddle
  have htexts := forall_mem_texts_structs common_balanced o nodes
  rw [hstructs, List.forall_mem_append, List.forall_mem_cons] at htexts
  obtain ⟨hfront, hc, -⟩ := htexts
  have hbefore : Nested (front.flatMap (fun c => c.lines ++ [""]) ++ c.comment) :=
    (nested_structs hfront).append (.of_forall_balanced (Struct.balanced_comment hc))
  obtain ⟨definition, hdefinition, henclosed⟩ := Struct.exists_enclosed hc
  refine ⟨?_, hstart, ?_⟩
  · rw [Brackets.runLines_append, runLines_opening]
    exact hbefore.runLines _
  · rwa [List.append_cancel_left (hlines.symm.trans hdefinition)]

/-! ### The end of the namespace -/

/-- Whether the only open bracket is closed on a line that follows these lines. -/
def ClosesLast (before : List String) (line : String) : Prop :=
  ∃ cs c ds b, line.toList = cs ++ c :: ds ∧
    run [] (before.flatMap String.toList ++ cs) = some [b] ∧ Brackets.step [b] c = some []

theorem ClosesLast.mem {before : List String} {line : String} (h : ClosesLast before line) :
    ')' ∈ line.toList ∨ '\x7d' ∈ line.toList := by
  obtain ⟨cs, c, ds, b, hline, -, hstep⟩ := h
  have hmem : c ∈ line.toList := hline ▸ List.mem_append_right _ List.mem_cons_self
  unfold Brackets.step at hstep
  split at hstep
  · next opener hopener =>
    unfold Brackets.opener? at hopener
    split at hopener
    · exact .inl hmem
    · exact .inr hmem
    · cases hopener
  · -- other characters leave what is open
    have hstack := Option.some.inj hstep
    split at hstack <;> cases hstack

/-- Nested lines do not close what was open before them. -/
theorem not_closesLast_of_nested {outer inner front back : List String} {line : String} {b : Char}
    (houter : runLines [] outer = some [b]) (hinner : Nested inner)
    (h : inner = front ++ line :: back) : ¬ ClosesLast (outer ++ front) line := by
  rintro ⟨cs, c, ds, b', hline, hrun, hstep⟩
  have hstart : front.flatMap String.toList ++ (cs ++ [c]) <+: inner.flatMap String.toList := by
    rw [h, List.flatMap_append, List.flatMap_cons, hline]
    exact ⟨ds ++ back.flatMap String.toList, by simp⟩
  obtain ⟨own, hown⟩ := hinner.exists_run hstart
  have hnil : run [] ((outer ++ front).flatMap String.toList ++ cs ++ [c]) = some [] := by
    rw [Brackets.run_append, hrun]
    exact congrArg (Option.bind · _) hstep
  have hopen : run [] ((outer ++ front).flatMap String.toList ++ cs ++ [c]) =
      some (own ++ [b]) := by
    have houter' : run [] (outer.flatMap String.toList) = some [b] := houter
    rw [List.flatMap_append, List.append_assoc, List.append_assoc, Brackets.run_append, houter']
    exact hown [b]
  rw [hnil] at hopen
  simp at hopen

/-- Of the code of a header in a namespace the line before the last one closes the namespace, and
no other line. -/
theorem closesLast_iff {o : Options} (h : o.namespaceName ≠ "") (nodes : List Node)
    {before after : List String} {line : String}
    (hcode : codeLines o.toSettings nodes = before ++ line :: after) :
    ClosesLast before line ↔ before = ["", "namespace " ++ o.namespaceName ++ " \x7b"] ++
      "" :: namespaceLines o.toSettings nodes := by
  have hinner : Nested ("" :: namespaceLines o.toSettings nodes) :=
    .line (by decide) (nested_namespaceLines o nodes)
  have hopening : ∀ l ∈ ["", "namespace " ++ o.namespaceName ++ " \x7b"],
      ¬ (')' ∈ l.toList ∨ '\x7d' ∈ l.toList) := by
    have hname := o.isIdentifier_namespaceName.resolve_left h
    simp [Cpp.not_mem_of_isIdentifier hname (c := ')') (by decide),
      Cpp.not_mem_of_isIdentifier hname (c := '\x7d') (by decide)]
  have hend : ¬ (')' ∈ (Guard.closing o.guard).toList ∨
      '\x7d' ∈ (Guard.closing o.guard).toList) := by
    simp [Guard.closing, o.isMacroName_guard.not_mem (c := ')') (by decide),
      o.isMacroName_guard.not_mem (c := '\x7d') (by decide)]
  rw [codeLines_of_namespaceName_ne h] at hcode
  constructor
  · intro hcloses
    obtain ⟨middle, rfl, hmiddle⟩ := exists_append_of_append_cons hopening hcloses.mem hcode
    rcases List.append_eq_append_iff.1 hmiddle with ⟨rest, rfl, hrest⟩ | ⟨rest, hfront, hrest⟩
    · cases rest with
      | nil => rw [List.append_nil]
      | cons first rest =>
        -- what follows the end of the namespace closes nothing
        have hmem : line ∈ [Guard.closing o.guard] := by
          rw [(List.cons.inj hrest).2]
          exact List.mem_append_right _ List.mem_cons_self
        rw [List.mem_singleton.1 hmem] at hcloses
        exact absurd hcloses.mem hend
    · cases rest with
      | nil => rw [hfront, List.append_nil]
      | cons first rest =>
        -- the lines in the namespace nest on their own
        obtain ⟨rfl, -⟩ := List.cons.inj hrest
        exact absurd hcloses
          (not_closesLast_of_nested (runLines_namespaceOpening h) hinner hfront)
  · rintro rfl
    rw [← List.append_assoc] at hcode
    obtain ⟨rfl, rfl⟩ := List.cons.inj (List.append_cancel_left hcode)
    have hrun : runLines [] (["", "namespace " ++ o.namespaceName ++ " \x7b"] ++
        "" :: namespaceLines o.toSettings nodes) = some ['\x7b'] := by
      rw [Brackets.runLines_append, runLines_namespaceOpening h]
      exact hinner.runLines _
    refine ⟨[], '\x7d', (" // namespace " ++ o.namespaceName).toList, '\x7b', by simp, ?_, rfl⟩
    rw [List.append_nil]
    exact hrun

end Header

namespace Table

/-- The brackets of the code of a header nest. A scan of it ends with nothing open, and between two
lines only braces are open. Each struct is defined where nothing is open but the brace of the
namespace, if there is one, and the first line after which this is so again is the one that ends
the definition. The brace of the namespace is closed by a line of its own, directly before the
end of the guard, and no other line closes the only bracket that is open. -/
theorem nesting_header (t : Table) (o : Options) (d : Document)
    (h : (t.header o).result = .ok d) :
    ∃ code, Header.code? d.lines = some code ∧
      runLines [] code = some [] ∧
      (∀ front, front <+: code → ∃ opened, runLines [] front = some opened ∧ '(' ∉ opened) ∧
      code.filterMap Header.definition? = d.lines.filterMap Header.definition? ∧
      (∀ before line after, code = before ++ line :: after →
        (Header.definition? line).isSome = true →
        ∃ opened, runLines [] before = some opened ∧
          opened.length = (if o.namespaceName = "" then 0 else 1) ∧
          Header.definitionLines line after <+: line :: after ∧
          runLines opened (Header.definitionLines line after) = some opened ∧
          ∀ front, front <+: Header.definitionLines line after → front ≠ [] →
            front ≠ Header.definitionLines line after →
            ∃ inner, runLines opened front = some inner ∧ opened.length < inner.length) ∧
      (o.namespaceName ≠ "" → ∃ front,
        code = front ++ ["\x7d // namespace " ++ o.namespaceName, "#endif // " ++ o.guard] ∧
        ∀ before line after, code = before ++ line :: after →
          (Header.ClosesLast before line ↔ before = front)) := by
  have hnested := Header.nested_codeLines o t.toList
  rw [(header_eq_ok_iff.1 h).2]
  refine ⟨Header.codeLines o.toSettings t.toList, Header.code?_lines _ _,
    hnested.runLines [], fun front hfront => ?_, Header.filterMap_definition?_codeLines _ _,
    fun before line after hcode hline => ?_, fun hnamespace => ?_⟩
  · obtain ⟨own, hown, hrun⟩ := hnested.exists_runLines hfront
    refine ⟨own, (hrun []).trans (by rw [List.append_nil]), fun hmem => ?_⟩
    exact absurd (hown '(' hmem) (by decide)
  · obtain ⟨hbefore, hstart, henclosed⟩ :=
      Header.enclosed_definition o t.toList (Option.isSome_iff_ne_none.1 hline) hcode
    refine ⟨_, hbefore, ?_, hstart, henclosed.nested.runLines _, fun front hfront hne hne' => ?_⟩
    · unfold Header.level
      split <;> rfl
    · obtain ⟨own, hown, hrun⟩ := henclosed.exists_runLines_ne_nil hfront hne hne'
      refine ⟨_, hrun _, ?_⟩
      rw [List.length_append]
      exact Nat.lt_add_of_pos_left (List.length_pos_iff.2 hown)
  · refine ⟨["", "namespace " ++ o.namespaceName ++ " \x7b"] ++
      "" :: Header.namespaceLines o.toSettings t.toList, ?_, fun before line after hcode =>
        Header.closesLast_iff hnamespace t.toList hcode⟩
    rw [Header.codeLines_of_namespaceName_ne hnamespace, List.append_assoc]
    rfl

/-- Brackets in the comment and in an included header do not count, and those of types are of
other kinds. -/
theorem nesting_header_brackets : ∃ (t : Table) (o : Options) (d : Document) (code : List String),
    (ofList ["A: T<int[2]>* x, B& y"]).result = .ok t ∧
      o.toSettings = {
        namespaceName := "ns"
        includes := ["<a(b>"]
        metadata := { title := "\x7d(" }
        visitor := some { returnType := "T<int[2]>" } } ∧
      (t.header o).result = .ok d ∧ " * \x7d(" ∈ d.lines ∧ "#include <a(b>" ∈ d.lines ∧
      Header.code? d.lines = some code ∧ runLines [] code = some [] ∧
      ∃ front, code = front ++ ["\x7d // namespace ns", "#endif // NS_EXPR_H"] ∧
        ∀ before line after, code = before ++ line :: after →
          (Header.ClosesLast before line ↔ before = front) := by
  let n : Node :=
    { name := "A"
      fields := [⟨"T<int[2]>*", "x", by decide, by decide⟩, ⟨"B&", "y", by decide, by decide⟩]
      isIdentifier_name := by decide
      fields_ne_nil := by decide
      nodup_fields := by decide }
  let o : Options :=
    { namespaceName := "ns"
      includes := ["<a(b>"]
      metadata := { title := "\x7d(" }
      visitor := some { returnType := "T<int[2]>" }
      holds_checks := by decide }
  have hreads : Reads (listEntries ["A: T<int[2]>* x, B& y"]) [n] := by rfl
  obtain ⟨t, ht, -, h⟩ := exists_header_of_reads hreads (by decide) o (by decide)
  obtain ⟨code, hcode, hrun, -, -, -, hnamespace⟩ := nesting_header t o _ h
  obtain ⟨front, hfront, hcloses⟩ := hnamespace (by decide)
  have hend : ["\x7d // namespace " ++ o.namespaceName, "#endif // " ++ o.guard] =
      ["\x7d // namespace ns", "#endif // NS_EXPR_H"] := by decide
  exact ⟨t, o, _, code, ht, rfl, h, by decide, by decide, hcode, hrun, front, hend ▸ hfront,
    hcloses⟩

end Table

end NodeHeader
