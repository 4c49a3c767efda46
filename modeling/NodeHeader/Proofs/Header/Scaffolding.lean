/-
  The visitor scaffolding of a header.

  The methods of a struct are read off the lines of its body: a pure one from its line, and an
  override from its line with the statements up to the bracket that ends it (`methods`). Read in
  this way, a struct has the methods that it is written with (`methods_bodyLines`).

  `Table.scaffolding_header` says what is read from a header with a visitor: which nodes are
  announced, all methods in order with the structs they stand in, and that they fit together. It
  also says that no name of a struct is used before the struct is announced or defined
  (`Scoped`), where the header itself writes it.
-/
import NodeHeader.Proofs.Header.Blocks
import NodeHeader.Proofs.Header.Options

namespace NodeHeader.Header

open NodeHeader.Cpp (Member Parameter Struct)

/-! ### Reading methods -/

/-- A method as it is declared. -/
structure Signature where
  returnType : String
  name : String
  parameter : Parameter
deriving DecidableEq, Repr

/-- The method that a text declares: the type that it returns, its name, and in brackets the type
and the name of its parameter. -/
def signature? (text : List Char) : Option Signature := do
  let (front, back) ← cutAtFirst ['('] text
  let (returnType, name) ← cutAtLast ' ' front
  let inner ← [')'].isSuffixOf? back
  let (typeName, parameter) ← cutAtLast ' ' inner
  return {
    returnType := String.ofList returnType
    name := String.ofList name
    parameter := { typeName := String.ofList typeName, name := String.ofList parameter } }

/-- What stands on a line between a text at its start and one at its end. -/
def textBetween? (first last line : String) : Option (List Char) := do
  let rest ← first.toList.isPrefixOf? line.toList
  last.toList.isSuffixOf? rest

/-- The method that a line leaves to deriving structs. -/
def pureMethod? (line : String) : Option Signature := do
  signature? (← textBetween? "    virtual " " = 0;" line)

/-- The inherited method whose definition starts on a line. -/
def override? (line : String) : Option Signature := do
  signature? (← textBetween? Cpp.indent " override \x7b" line)

/-- A method of a struct. -/
inductive Method where
  | pure (signature : Signature)
  | override (signature : Signature) (statements : List String)
deriving DecidableEq, Repr

/-- The methods that the lines of a body declare, in order. -/
def methods : List String → List Method
  | [] => []
  | line :: rest =>
    match pureMethod? line, override? line with
    | some s, _ => .pure s :: methods rest
    | none, some s => .override s (rest.takeWhile (· ≠ Cpp.indent ++ "\x7d")) :: methods rest
    | none, none => methods rest

/-- The method of which a line is the first one. -/
def declared? (line : String) : Option Signature :=
  (pureMethod? line).or (override? line)

def Method.signature : Method → Signature
  | .pure s => s
  | .override s _ => s

/-- The methods are those of the lines on which one starts. -/
theorem filterMap_declared? (lines : List String) :
    lines.filterMap declared? = (methods lines).map Method.signature := by
  induction lines with
  | nil => rfl
  | cons line rest ih =>
    rw [methods, List.filterMap_cons, declared?]
    cases pureMethod? line with
    | some s => exact congrArg (s :: ·) ih
    | none =>
      cases override? line with
      | some s => exact congrArg (s :: ·) ih
      | none => exact ih

/-- The methods of all structs that lines define, in order, with the names of the structs. -/
def methodsIn (lines : List String) : List (String × Method) :=
  (blocks lines).flatMap fun b => (methods b.body).map (b.name, ·)

/-- The method that a statement calls with the struct it stands in, on an object of this name. -/
def call? (object statement : String) : Option String := do
  let text ← (Cpp.indent ++ Cpp.indent).toList.isPrefixOf? statement.toList
  let text := ("return ".toList.isPrefixOf? text).getD text
  let rest ← (object ++ ".").toList.isPrefixOf? text
  let method ← "(*this);".toList.isSuffixOf? rest
  return String.ofList method

/-- Whether a statement returns what it computes. -/
def returns (statement : String) : Bool :=
  (Cpp.indent ++ Cpp.indent ++ "return ").toList.isPrefixOf statement.toList

/-! ### Single lines -/

/-- The blanks and brackets of a method's line are those between its parts. -/
structure Signature.Legible (s : Signature) : Prop where
  paren_not_mem_returnType : '(' ∉ s.returnType.toList
  paren_not_mem_name : '(' ∉ s.name.toList
  blank_not_mem_name : ' ' ∉ s.name.toList
  blank_not_mem_parameter : ' ' ∉ s.parameter.name.toList

/-- A method as it is written. -/
def Signature.text (s : Signature) : String :=
  s.returnType ++ " " ++ s.name ++ "(" ++ s.parameter.text ++ ")"

theorem Signature.Legible.signature?_text {s : Signature} (h : s.Legible) :
    signature? s.text.toList = some s := by
  have htext : s.text.toList = s.returnType.toList ++ ' ' :: s.name.toList ++ '(' ::
      (s.parameter.typeName.toList ++ ' ' :: s.parameter.name.toList ++ [')']) := by
    simp [text, Parameter.text]
  have hparen : '(' ∉ s.returnType.toList ++ ' ' :: s.name.toList := by
    simp [h.paren_not_mem_returnType, h.paren_not_mem_name]
  have hfront := cutAtFirst_singleton_eq_some_iff.2 ⟨htext, hparen⟩
  have hback : [')'].isSuffixOf?
      (s.parameter.typeName.toList ++ ' ' :: s.parameter.name.toList ++ [')']) =
      some (s.parameter.typeName.toList ++ ' ' :: s.parameter.name.toList) :=
    List.isSuffixOf?_eq_some_iff_append_eq.2 rfl
  simp only [signature?, Option.bind_eq_bind, hfront, Option.bind_some,
    cutAtLast_append h.blank_not_mem_name, hback, cutAtLast_append h.blank_not_mem_parameter,
    Option.pure_def, String.ofList_toList]

theorem textBetween?_append (first text last : String) :
    textBetween? first last (first ++ (text ++ last)) = some text.toList := by
  rw [textBetween?, isPrefixOf?_append]
  exact isSuffixOf?_append text last

/-- Nothing is between texts of which a line lacks one: it starts otherwise, or its last character
is another one. -/
theorem textBetween?_eq_none {first last line : String} (hne : last.toList ≠ [])
    (h : ¬ first.toList <+: line.toList ∨ line.toList.getLast? ≠ last.toList.getLast?) :
    textBetween? first last line = none := by
  rw [textBetween?]
  cases hrest : first.toList.isPrefixOf? line.toList with
  | none => rfl
  | some rest =>
    have hline := List.isPrefixOf?_eq_some_iff_append_eq.1 hrest
    refine isSuffixOf?_eq_none_iff.2 fun hlast => ?_
    rcases h with h | h
    · exact h ⟨rest, hline⟩
    · refine not_suffix_of_getLast? hne h (hlast.trans ?_)
      rw [← hline]
      exact List.suffix_append _ _

theorem pureMethod?_line {returnType name : String} {parameter : Parameter}
    (h : Signature.Legible { returnType, name, parameter }) :
    pureMethod? (Cpp.indent ++ "virtual " ++ returnType ++ " " ++ name ++ "(" ++ parameter.text ++
      ") = 0;") = some { returnType, name, parameter } := by
  have hline : Cpp.indent ++ "virtual " ++ returnType ++ " " ++ name ++ "(" ++ parameter.text ++
      ") = 0;" =
      "    virtual " ++ (Signature.text { returnType, name, parameter } ++ " = 0;") :=
    String.toList_inj.1 (by simp [Signature.text, Cpp.indent])
  rw [pureMethod?, hline, textBetween?_append]
  exact h.signature?_text

theorem override?_line {returnType name : String} {parameter : Parameter}
    (h : Signature.Legible { returnType, name, parameter }) :
    override? (Cpp.indent ++ returnType ++ " " ++ name ++ "(" ++ parameter.text ++
      ") override \x7b") = some { returnType, name, parameter } := by
  have hline : Cpp.indent ++ returnType ++ " " ++ name ++ "(" ++ parameter.text ++
      ") override \x7b" =
      Cpp.indent ++ (Signature.text { returnType, name, parameter } ++ " override \x7b") :=
    String.toList_inj.1 (by simp [Signature.text, Cpp.indent])
  rw [override?, hline, textBetween?_append]
  exact h.signature?_text

theorem pureMethod?_eq_none {line : String}
    (h : ¬ "    virtual ".toList <+: line.toList ∨ line.toList.getLast? ≠ some ';') :
    pureMethod? line = none := by
  rw [pureMethod?, textBetween?_eq_none (by decide) h]
  rfl

theorem override?_eq_none {line : String}
    (h : ¬ Cpp.indent.toList <+: line.toList ∨ line.toList.getLast? ≠ some '\x7b') :
    override? line = none := by
  rw [override?, textBetween?_eq_none (by decide) h]
  rfl

/-- A line that declares no method. -/
structure Silent (line : String) : Prop where
  pureMethod?_eq_none : pureMethod? line = none
  override?_eq_none : override? line = none

theorem Silent.declared?_eq_none {line : String} (h : Silent line) : declared? line = none := by
  rw [declared?, h.pureMethod?_eq_none, h.override?_eq_none]
  rfl

theorem silent_of_getLast? {line : String} (h : line.toList.getLast? ≠ some ';')
    (h' : line.toList.getLast? ≠ some '\x7b') : Silent line :=
  ⟨pureMethod?_eq_none (.inr h), override?_eq_none (.inr h')⟩

theorem silent_of_not_indented {line : String} (h : ¬ Cpp.indent.toList <+: line.toList) :
    Silent line :=
  ⟨pureMethod?_eq_none (.inl fun hvirtual => h (List.IsPrefix.trans (by decide) hvirtual)),
    override?_eq_none (.inl h)⟩

/-! ### Members -/

/-- The method that a member declares. -/
def method? : Member → Option Method
  | .pureMethod returnType name parameter => some (.pure { returnType, name, parameter })
  | .override returnType name parameter statement =>
    some (.override { returnType, name, parameter } [Cpp.indent ++ Cpp.indent ++ statement])
  | _ => none

/-- A member whose lines are read as it is meant. -/
def Legible : Member → Prop
  | .pureMethod returnType name parameter => Signature.Legible { returnType, name, parameter }
  | .override returnType name parameter statement =>
    Signature.Legible { returnType, name, parameter } ∧
      statement.toList.getLast? ≠ some '\x7b'
  | _ => True

theorem methods_cons_of_silent {line : String} (h : Silent line) (rest : List String) :
    methods (line :: rest) = methods rest := by
  rw [methods, h.pureMethod?_eq_none, h.override?_eq_none]

theorem silent_statement {statement : String} (h : statement.toList.getLast? ≠ some '\x7b') :
    Silent (Cpp.indent ++ Cpp.indent ++ statement) := by
  refine ⟨pureMethod?_eq_none (.inl (by simp [Cpp.indent])), override?_eq_none (.inr ?_)⟩
  rw [String.toList_append, List.getLast?_append]
  cases hlast : statement.toList.getLast? with
  | none => decide
  | some c => rwa [hlast] at h

/-- The lines of a member show its method. -/
theorem methods_lines_append {m : Member} (h : Legible m) (rest : List String) :
    methods (m.lines ++ rest) = (method? m).toList ++ methods rest := by
  -- what does not end like a method is silent
  have hsilent (text : String) {ending : String} {c : Char}
      (hending : ending.toList.getLast? = some c) (hc : c ≠ ';' ∧ c ≠ '\x7b') :
      Silent (text ++ ending) :=
    silent_of_getLast? (getLast?_append_ne _ hending hc.1) (getLast?_append_ne _ hending hc.2)
  cases m with
  | field typeName name =>
    have hline : Silent (Cpp.indent ++ "const " ++ typeName ++ " " ++ name ++ ";") :=
      ⟨pureMethod?_eq_none (.inl (by simp [Cpp.indent])),
        override?_eq_none (.inr (getLast?_append_ne _ rfl (by decide)))⟩
    exact methods_cons_of_silent hline rest
  | constructor struct parameters =>
    rw [Member.lines, List.cons_append, methods_cons_of_silent (hsilent _ rfl (by decide)),
      List.cons_append, methods_cons_of_silent (hsilent _ rfl (by decide))]
    rfl
  | destructor struct =>
    exact methods_cons_of_silent (hsilent _ rfl (by decide)) rest
  | pureMethod returnType name parameter =>
    rw [Member.lines, List.singleton_append, methods, pureMethod?_line h]
    rfl
  | override returnType name parameter statement =>
    obtain ⟨hlegible, hlast⟩ := h
    have hpure : pureMethod? (Cpp.indent ++ returnType ++ " " ++ name ++ "(" ++ parameter.text ++
        ") override \x7b") = none :=
      pureMethod?_eq_none (.inr (getLast?_append_ne _ rfl (by decide)))
    -- the statement is indented once more than the bracket that ends the body
    have hend : Cpp.indent ++ "\x7d" ∉ [Cpp.indent ++ Cpp.indent ++ statement] := by
      intro hmem
      have hstart : (Cpp.indent ++ Cpp.indent).toList <+: (Cpp.indent ++ "\x7d").toList := by
        rw [List.mem_singleton.1 hmem]
        exact ⟨statement.toList, String.toList_append.symm⟩
      exact absurd hstart (by decide)
    have hbody := Text.takeWhile_ne_append hend rest
    rw [Member.lines, List.cons_append, methods, hpure, override?_line hlegible]
    simp only [List.cons_append, List.nil_append] at hbody ⊢
    rw [hbody, methods_cons_of_silent (silent_statement hlast),
      methods_cons_of_silent (hsilent _ rfl (by decide))]
    rfl

/-- A struct whose members are legible has the methods that are read from its body. -/
theorem methods_bodyLines {c : Struct} (h : ∀ m ∈ c.members, Legible m) :
    methods (bodyLines c) = c.members.filterMap method? := by
  have hlabel : methods (bodyLines c) = methods (c.members.flatMap Member.lines) := by
    unfold bodyLines Struct.heading
    cases c.parent with
    | none => rfl
    | some parent => exact methods_cons_of_silent (silent_of_not_indented (by decide)) _
  rw [hlabel]
  generalize c.members = members at h
  induction members with
  | nil => rfl
  | cons m rest ih =>
    rw [List.forall_mem_cons] at h
    rw [List.flatMap_cons, methods_lines_append h.1, ih h.2, List.filterMap_cons]
    cases method? m <;> rfl

/-! ### Names before their use -/

/-- The struct that a line announces without defining it. -/
def announced? (line : String) : Option String := do
  let name ← textBetween? "struct " ";" line
  if ' ' ∈ name then none else some (String.ofList name)

/-- The struct that is known after a line: the one that it announces, or of which it starts the
definition. -/
def introduced? (line : String) : Option String :=
  ((definition? line).map Prod.fst).or (announced? line)

/-- The struct to which a reference of this type refers. -/
def referent (typeName : String) : String :=
  String.ofList (("&".toList.isSuffixOf? typeName.toList).getD typeName.toList)

/-- The structs that a line names where they have to be known: the parent of a definition, and
what the parameter of a method refers to. -/
def usedNames (line : String) : List String :=
  ((definition? line).bind Prod.snd).toList ++
    (declared? line).toList.map (referent ·.parameter.typeName)

/-- All names that lines use are known before, or introduced on an earlier line. -/
def Scoped (known lines : List String) : Prop :=
  ∀ before line after, lines = before ++ line :: after → ∀ name ∈ usedNames line,
    name ∈ known ++ before.filterMap introduced?

theorem scoped_of_forall_mem {known lines : List String}
    (h : ∀ line ∈ lines, ∀ name ∈ usedNames line, name ∈ known) : Scoped known lines := by
  rintro before line after rfl name hname
  exact List.mem_append_left _ (h line (List.mem_append_right _ List.mem_cons_self) name hname)

/-- Lines are scoped if the first of them are, and the rest with what these introduce. -/
theorem Scoped.append {known lines lines' : List String} (h : Scoped known lines)
    (h' : Scoped (known ++ lines.filterMap introduced?) lines') :
    Scoped known (lines ++ lines') := by
  intro before line after heq name hname
  rcases List.append_eq_append_iff.1 heq with ⟨front, rfl, hlines'⟩ | ⟨back, rfl, hback⟩
  · rw [List.filterMap_append, ← List.append_assoc]
    exact h' front line after hlines' name hname
  · cases back with
    | nil =>
      have hfirst := h' [] line after hback.symm name hname
      rwa [List.filterMap_nil, List.append_nil, List.append_nil] at hfirst
    | cons first others =>
      obtain ⟨rfl, -⟩ := List.cons.inj hback
      exact h before line others rfl name hname

theorem Scoped.mono {known known' lines : List String} (h : Scoped known lines)
    (hsub : known ⊆ known') : Scoped known' lines := by
  intro before line after heq name hname
  rcases List.mem_append.1 (h before line after heq name hname) with hmem | hmem
  · exact List.mem_append_left _ (hsub hmem)
  · exact List.mem_append_right _ hmem

theorem usedNames_of_plain {line : String} (h : Plain line) : usedNames line = [] := by
  rw [usedNames, definition?_of_plain h, (silent_of_not_indented h.not_indented).declared?_eq_none]
  rfl

theorem usedNames_forward (n : Node) : usedNames (Struct.forward n.name) = [] := by
  have hsilent : Silent (Struct.forward n.name) :=
    silent_of_not_indented (by simp [Struct.forward, Cpp.indent])
  rw [usedNames, definition?_forward, hsilent.declared?_eq_none]
  rfl

theorem announced?_eq_none {line : String}
    (h : ¬ "struct ".toList <+: line.toList ∨ line.toList.getLast? ≠ some ';') :
    announced? line = none := by
  rw [announced?, textBetween?_eq_none (by decide) h]
  rfl

theorem announced?_eq_none_of_head {line : String} (h : line.toList.head? ≠ some 's') :
    announced? line = none :=
  announced?_eq_none (.inl (isPrefixOf?_eq_none_iff.1 (isPrefixOf?_struct_eq_none h)))

theorem announced?_of_plain {line : String} (h : Plain line) : announced? line = none :=
  announced?_eq_none_of_head h.head_ne

theorem announced?_forward (n : Node) : announced? (Struct.forward n.name) = some n.name := by
  have hblank : ' ' ∉ n.name.toList := Cpp.not_mem_of_isIdentifier n.isIdentifier_name (by decide)
  rw [announced?, Struct.forward, String.append_assoc, textBetween?_append]
  simp only [Option.bind_eq_bind, Option.bind_some, hblank, if_false, String.ofList_toList]

theorem introduced?_of_plain {line : String} (h : Plain line) : introduced? line = none := by
  rw [introduced?, definition?_of_plain h, announced?_of_plain h]
  rfl

theorem introduced?_forward (n : Node) : introduced? (Struct.forward n.name) = some n.name := by
  rw [introduced?, definition?_forward, announced?_forward]
  rfl

/-! ### Structs in their scope -/

/-- The structs that a struct names: its parent, and what the parameters of its methods refer
to. -/
def referents (c : Struct) : List String :=
  c.parent.toList ++
    (c.members.filterMap method?).map (referent ·.signature.parameter.typeName)

theorem referent_append (name : String) : referent (name ++ "&") = name := by
  rw [referent, isSuffixOf?_append, Option.getD_some, String.ofList_toList]

section Struct

variable {c : Struct} (hname : ∀ ch ∈ c.name.toList, Cpp.isIdentifierChar ch = true)
  (hlegible : ∀ m ∈ c.members, Legible m)

theorem announced?_of_mem_lines {c : Struct} : ∀ line ∈ c.lines, announced? line = none := by
  have hopens (text : String) : announced? (text ++ " \x7b") = none :=
    announced?_eq_none (.inr (getLast?_append_ne text rfl (by decide)))
  refine Struct.forall_mem_lines
    (fun line hline => announced?_of_plain (plain_of_mem_comment line hline)) ?_ ?_
    (fun m _ line hline =>
      announced?_eq_none_of_head (by simp [Member.head?_of_mem_lines line hline]))
    (announced?_of_plain plain_end)
  · -- a definition on one line ends like an announcement, but with blanks after the name
    have hline : "struct " ++ c.name ++ " \x7b \x7d;" =
        "struct " ++ (c.name ++ " \x7b \x7d" ++ ";") :=
      String.toList_inj.1 (by simp)
    have hblank : ' ' ∈ (c.name ++ " \x7b \x7d").toList := by simp
    rw [hline, announced?, textBetween?_append]
    simp only [Option.bind_eq_bind, Option.bind_some, hblank, if_true]
  · unfold Struct.heading
    cases c.parent with
    | none => exact List.forall_mem_singleton.2 (hopens _)
    | some parent =>
      exact List.forall_mem_cons.2
        ⟨hopens _, List.forall_mem_singleton.2 (announced?_eq_none_of_head (by decide))⟩

include hname in
theorem mem_filterMap_introduced? : c.name ∈ c.lines.filterMap introduced? := by
  obtain ⟨opening, after, hlines, hdefinition, -⟩ := exists_lines_eq_comment hname
  refine List.mem_filterMap.2 ⟨opening, ?_, ?_⟩
  · rw [hlines]
    exact List.mem_append_right _ List.mem_cons_self
  · rw [introduced?, hdefinition]
    rfl

include hname hlegible in
theorem mem_referents_of_mem_usedNames : ∀ line ∈ c.lines, ∀ name ∈ usedNames line,
    name ∈ referents c := by
  obtain ⟨opening, after, hlines, hdefinition, hhead, hafter, -⟩ := exists_lines_eq_comment hname
  have hopening : usedNames opening = c.parent.toList := by
    have hsilent : Silent opening := silent_of_not_indented fun ⟨rest, hrest⟩ => by
      rw [← hrest] at hhead
      cases hhead
    rw [usedNames, hdefinition, hsilent.declared?_eq_none]
    exact List.append_nil _
  have hbody : ∀ line ∈ bodyLines c, ∀ name ∈ usedNames line,
      name ∈ (c.members.filterMap method?).map (referent ·.signature.parameter.typeName) := by
    intro line hline name hused
    rw [usedNames, definition?_of_mem_bodyLines line hline] at hused
    obtain ⟨signature, hsignature, rfl⟩ := List.mem_map.1 hused
    have hmem : signature ∈ (bodyLines c).filterMap declared? :=
      List.mem_filterMap.2 ⟨line, hline, Option.mem_toList.1 hsignature⟩
    rw [filterMap_declared?, methods_bodyLines hlegible] at hmem
    obtain ⟨m, hm, rfl⟩ := List.mem_map.1 hmem
    exact List.mem_map_of_mem hm
  intro line hline name hused
  rw [hlines, List.mem_append, List.mem_cons] at hline
  rcases hline with hline | rfl | hline
  · rw [usedNames_of_plain (plain_of_mem_comment line hline)] at hused
    cases hused
  · rw [hopening] at hused
    exact List.mem_append_left _ hused
  · rcases hafter line hline with hline | rfl
    · exact List.mem_append_right _ (hbody line hline name hused)
    · rw [usedNames_of_plain plain_end] at hused
      cases hused

end Struct

/-- A struct is in scope if all that it names is known, and what follows may use its name. -/
theorem Scoped.struct_append {c : Struct}
    (hname : ∀ ch ∈ c.name.toList, Cpp.isIdentifierChar ch = true)
    (hlegible : ∀ m ∈ c.members, Legible m) {known rest : List String}
    (hreferents : ∀ name ∈ referents c, name ∈ known) (hrest : Scoped (known ++ [c.name]) rest) :
    Scoped known (c.lines ++ "" :: rest) := by
  refine Scoped.append ?_ ?_
  · exact scoped_of_forall_mem fun line hline name hused =>
      hreferents name (mem_referents_of_mem_usedNames hname hlegible line hline name hused)
  · have hempty : Scoped (known ++ [c.name]) [""] := scoped_of_forall_mem (by
      simp [usedNames_of_plain plain_empty])
    refine (hempty.append (hrest.mono (List.subset_append_left _ _))).mono ?_
    exact List.append_subset.2 ⟨List.subset_append_left _ _,
      List.cons_subset.2
        ⟨List.mem_append_right _ (mem_filterMap_introduced? hname), List.nil_subset _⟩⟩

theorem mem_referents_of_mem_structs {cs : List Struct}
    (hnames : ∀ c ∈ cs, ∀ ch ∈ c.name.toList, Cpp.isIdentifierChar ch = true)
    (hlegible : ∀ c ∈ cs, ∀ m ∈ c.members, Legible m) :
    ∀ line ∈ cs.flatMap (fun c => c.lines ++ [""]), ∀ name ∈ usedNames line,
      ∃ c ∈ cs, name ∈ referents c := by
  refine forall_mem_flatMap_lines (by simp [usedNames_of_plain plain_empty]) ?_
  exact fun c hc line hline name hused => ⟨c, hc,
    mem_referents_of_mem_usedNames (hnames c hc) (hlegible c hc) line hline name hused⟩

/-! ### A whole header -/

/-- The method that a node's visitor has for it. -/
def visitSignature (v : Visitor) (n : Node) : Signature where
  returnType := v.returnType
  name := visitName n.name
  parameter := { typeName := n.name ++ "&", name := "node" }

/-- The method by which nodes accept a visitor. -/
def acceptSignature (base : String) (v : Visitor) : Signature where
  returnType := v.returnType
  name := acceptName
  parameter := visitorParameter base

section Members

variable (base : String) (nodes : List Node) (n : Node)

theorem filterMap_method?_visitorInterface (v : Visitor) :
    (visitorInterface base nodes v).members.filterMap method? =
      nodes.map fun n => .pure (visitSignature v n) := by
  show (nodes.map (visitMethod v)).filterMap method? = _
  rw [List.filterMap_map, ← List.filterMap_eq_map]
  rfl

theorem filterMap_method?_baseStruct (v : Option Visitor) :
    (baseStruct base v).members.filterMap method? =
      v.toList.map fun v => .pure (acceptSignature base v) := by
  cases v <;> rfl

theorem filterMap_method?_nodeStruct (v : Option Visitor) :
    (nodeStruct base v n).members.filterMap method? =
      v.toList.map fun v =>
        .override (acceptSignature base v) [Cpp.indent ++ Cpp.indent ++ visitCall v n] := by
  have hfields : (n.fields.map fun f => Member.field f.typeName f.name).filterMap method? = [] := by
    simp [method?]
  rw [nodeStruct, List.filterMap_append, hfields]
  cases v <;> rfl

theorem referents_visitorInterface (v : Visitor) :
    referents (visitorInterface base nodes v) = nodes.map Node.name := by
  rw [referents, filterMap_method?_visitorInterface, List.map_map]
  exact List.map_congr_left fun n _ => referent_append n.name

theorem referents_baseStruct (v : Option Visitor) :
    referents (baseStruct base v) = v.toList.map fun _ => visitorName base := by
  rw [referents, filterMap_method?_baseStruct, List.map_map]
  exact List.map_congr_left fun _ _ => referent_append (visitorName base)

theorem referents_nodeStruct (v : Option Visitor) :
    referents (nodeStruct base v n) = base :: v.toList.map fun _ => visitorName base := by
  rw [referents, filterMap_method?_nodeStruct, List.map_map]
  exact congrArg (base :: ·) (List.map_congr_left fun _ _ => referent_append (visitorName base))

end Members

section Legible

variable {v : Visitor} (hv : Cpp.isTypeName v.returnType = true)

include hv

theorem legible_visitSignature (n : Node) : (visitSignature v n).Legible where
  paren_not_mem_returnType := Cpp.not_mem_of_isTypeName hv (by decide)
  paren_not_mem_name := by
    have hname := Cpp.not_mem_of_isIdentifier n.isIdentifier_name (c := '(') (by decide)
    simpa [visitSignature, visitName] using hname
  blank_not_mem_name := by
    have hname := Cpp.not_mem_of_isIdentifier n.isIdentifier_name (c := ' ') (by decide)
    simpa [visitSignature, visitName] using hname
  blank_not_mem_parameter := show ' ' ∉ "node".toList by decide

theorem legible_acceptSignature (base : String) : (acceptSignature base v).Legible where
  paren_not_mem_returnType := Cpp.not_mem_of_isTypeName hv (by decide)
  paren_not_mem_name := show '(' ∉ acceptName.toList by decide
  blank_not_mem_name := show ' ' ∉ acceptName.toList by decide
  blank_not_mem_parameter := show ' ' ∉ "visitor".toList by decide

end Legible

/-- All members of the structs of a header can be read off their lines. -/
theorem legible_of_mem_structs {s : Settings}
    (hv : ∀ v, s.visitor = some v → Cpp.isTypeName v.returnType = true) (nodes : List Node) :
    ∀ c ∈ structs s nodes, ∀ m ∈ c.members, Legible m := by
  have haccept {v : Visitor} (h : s.visitor = some v) : (acceptSignature s.base v).Legible :=
    legible_acceptSignature (hv v h) s.base
  simp only [structs, List.forall_mem_append, List.forall_mem_cons, List.forall_mem_map]
  refine ⟨fun v hvisitor => ?_, ?_, fun n _ => ?_⟩
  · simp only [visitorInterface, List.forall_mem_cons, List.forall_mem_map]
    exact ⟨trivial, fun n _ => legible_visitSignature (hv v (Option.mem_toList.1 hvisitor)) n⟩
  · unfold baseStruct
    cases h : s.visitor with
    | none => exact List.forall_mem_nil _
    | some v => exact List.forall_mem_cons.2 ⟨trivial, List.forall_mem_singleton.2 (haccept h)⟩
  · simp only [nodeStruct, List.forall_mem_append, List.forall_mem_cons, List.forall_mem_map]
    refine ⟨fun _ _ => trivial, trivial, fun v hvisitor =>
      ⟨haccept (Option.mem_toList.1 hvisitor), ?_⟩⟩
    exact getLast?_append_ne _ rfl (by decide)

section Lines

variable {s : Settings} (hbase : Cpp.isIdentifier s.base = true)
  (hv : ∀ v, s.visitor = some v → Cpp.isTypeName v.returnType = true)

/-- The nodes that are announced are those of the header, in order, if there is a visitor. -/
theorem filterMap_announced?_lines (s : Settings) (nodes : List Node) :
    (lines s nodes).filterMap announced? =
      s.visitor.elim [] fun _ => nodes.map Node.name := by
  have hstructs : ((structs s nodes).flatMap fun c => c.lines ++ [""]).filterMap announced? =
      [] := List.filterMap_eq_nil_iff.2 (forall_mem_flatMap_lines (announced?_of_plain plain_empty)
    fun c _ => announced?_of_mem_lines)
  have hclosing : (closing s).filterMap announced? = [] :=
    List.filterMap_eq_nil_iff.2 fun line hline =>
      announced?_of_plain (plain_of_mem_closing s line hline)
  rw [lines_eq_structs, List.filterMap_append, List.filterMap_append, hstructs, hclosing,
    filterMap_opening (fun _ => announced?_of_plain), List.append_nil, List.append_nil]
  cases s.visitor with
  | none => rfl
  | some v =>
    show (nodes.map fun n => Struct.forward n.name).filterMap announced? = nodes.map Node.name
    rw [List.filterMap_map, ← List.filterMap_eq_map]
    exact List.filterMap_congr fun n _ => announced?_forward n

include hbase hv

/-- From a header the methods are read that its structs are written with. -/
theorem methodsIn_lines (nodes : List Node) :
    methodsIn (lines s nodes) =
      (structs s nodes).flatMap fun c => (c.members.filterMap method?).map (c.name, ·) := by
  rw [methodsIn, blocks_lines hbase, List.flatMap_map]
  refine List.flatMap_congr fun c hc => ?_
  show (methods (bodyLines c)).map (c.name, ·) = _
  rw [methods_bodyLines (legible_of_mem_structs hv nodes c hc)]

/-- In a header each name of a struct is used after the struct is announced or defined. -/
theorem scoped_lines (nodes : List Node) : Scoped [] (lines s nodes) := by
  have hnames : ∀ c ∈ structs s nodes, ∀ ch ∈ c.name.toList, Cpp.isIdentifierChar ch = true :=
    isIdentifierChar_of_mem_structs hbase
  have hlegible := legible_of_mem_structs hv nodes
  have hclosing : ∀ line ∈ closing s, usedNames line = [] := fun line hline =>
    usedNames_of_plain (plain_of_mem_closing s line hline)
  have hopening : ∀ line ∈ ((opening s nodes).take 4).flatMap spaced, usedNames line = [] :=
    forall_mem_opening (fun _ => usedNames_of_plain) (fun n _ => usedNames_forward n) s
  -- a node names the base type, and the visitor interface if there is one
  have hnodes {known : List String} (hbaseKnown : s.base ∈ known)
      (hvisitorKnown : ∀ v ∈ s.visitor.toList, visitorName s.base ∈ known) :
      Scoped known ((nodes.map (nodeStruct s.base s.visitor)).flatMap (fun c => c.lines ++ [""]) ++
        closing s) := by
    have hmem : nodes.map (nodeStruct s.base s.visitor) ⊆ structs s nodes := fun c hc =>
      List.mem_append_right _ (List.mem_cons_of_mem _ hc)
    refine scoped_of_forall_mem (List.forall_mem_append.2 ⟨fun line hline name hused => ?_, ?_⟩)
    · obtain ⟨c, hc, hname⟩ := mem_referents_of_mem_structs (fun c hc => hnames c (hmem hc))
        (fun c hc => hlegible c (hmem hc)) line hline name hused
      obtain ⟨n, -, rfl⟩ := List.mem_map.1 hc
      rw [referents_nodeStruct, List.mem_cons, List.mem_map] at hname
      rcases hname with rfl | ⟨v, hvisitor, rfl⟩
      · exact hbaseKnown
      · exact hvisitorKnown v hvisitor
    · simp +contextual [hclosing]
  -- the base type names the visitor interface, and is known to the nodes after it
  have hrest {known : List String} (hknown : ∀ v ∈ s.visitor.toList, visitorName s.base ∈ known) :
      Scoped known ((baseStruct s.base s.visitor).lines ++ "" ::
        ((nodes.map (nodeStruct s.base s.visitor)).flatMap (fun c => c.lines ++ [""]) ++
          closing s)) := by
    have hmem : baseStruct s.base s.visitor ∈ structs s nodes :=
      List.mem_append_right _ List.mem_cons_self
    refine Scoped.struct_append (hnames _ hmem) (hlegible _ hmem) ?_ (hnodes ?_ ?_)
    · rw [referents_baseStruct, List.forall_mem_map]
      exact hknown
    · exact List.mem_append_right _ (List.mem_singleton.2 rfl)
    · exact fun v hvisitor => List.mem_append_left _ (hknown v hvisitor)
  rw [lines_eq_structs, List.append_assoc]
  refine Scoped.append (scoped_of_forall_mem (by simp +contextual [hopening])) ?_
  rw [filterMap_opening (fun _ => introduced?_of_plain), structs, List.flatMap_append,
    List.flatMap_cons]
  simp only [List.append_assoc, List.cons_append, List.nil_append]
  cases hvisitor : s.visitor with
  | none =>
    rw [hvisitor] at hrest
    exact hrest (List.forall_mem_nil _)
  | some v =>
    rw [hvisitor] at hrest
    have hmem : visitorInterface s.base nodes v ∈ structs s nodes := by simp [structs, hvisitor]
    have hannounced : (forwardDeclarations nodes).filterMap introduced? = nodes.map Node.name := by
      rw [forwardDeclarations, List.filterMap_map, ← List.filterMap_eq_map]
      exact List.filterMap_congr fun n _ => introduced?_forward n
    simp only [Option.elim_some, Option.toList_some, List.map_cons, List.map_nil, List.flatMap_cons,
      List.flatMap_nil, List.append_assoc, List.cons_append, List.nil_append, hannounced]
    -- the interface names the nodes, which are announced
    refine Scoped.struct_append (hnames _ hmem) (hlegible _ hmem) ?_ (hrest fun _ _ => ?_)
    · rw [referents_visitorInterface]
      exact fun _ hname => hname
    · exact List.mem_append_right _ (List.mem_singleton.2 rfl)

end Lines

/-- The methods of a header with a visitor: one of the interface for each node, the one by which
nodes accept a visitor, and its definition in each node. -/
theorem flatMap_methods_structs {s : Settings} {v : Visitor} (hvisitor : s.visitor = some v)
    (nodes : List Node) :
    ((structs s nodes).flatMap fun c => (c.members.filterMap method?).map (c.name, ·)) =
      nodes.map (fun n => (visitorName s.base, Method.pure (visitSignature v n))) ++
        (s.base, .pure (acceptSignature s.base v)) :: nodes.map fun n =>
          (n.name, .override (acceptSignature s.base v)
            [Cpp.indent ++ Cpp.indent ++ visitCall v n]) := by
  have hnodes : ((nodes.map (nodeStruct s.base (some v))).flatMap fun c =>
      (c.members.filterMap method?).map (c.name, ·)) = nodes.map fun n =>
        (n.name, .override (acceptSignature s.base v)
          [Cpp.indent ++ Cpp.indent ++ visitCall v n]) := by
    rw [List.flatMap_map, List.map_eq_flatMap]
    refine List.flatMap_congr fun n _ => ?_
    rw [filterMap_method?_nodeStruct]
    rfl
  rw [structs, hvisitor, List.flatMap_append, List.flatMap_cons, hnodes,
    filterMap_method?_baseStruct]
  simp only [Option.toList_some, List.map_cons, List.map_nil, List.flatMap_cons, List.flatMap_nil,
    List.append_nil, filterMap_method?_visitorInterface, List.map_map]
  rfl

theorem call?_visitCall (v : Visitor) (n : Node) :
    call? "visitor" (Cpp.indent ++ Cpp.indent ++ visitCall v n) = some (visitName n.name) := by
  -- with and without a result, the same call is left
  have hreturn : ("return ".toList.isPrefixOf? (visitCall v n).toList).getD (visitCall v n).toList =
      ("visitor" ++ "." ++ (visitName n.name ++ "(*this);")).toList := by
    unfold visitCall
    split
    · have hnone : "return ".toList.isPrefixOf?
          ("" ++ "visitor." ++ visitName n.name ++ "(*this);").toList = none :=
        isPrefixOf?_eq_none_iff.2 (by simp)
      rw [hnone, Option.getD_none]
      simp
    · rw [String.append_assoc, String.append_assoc, isPrefixOf?_append, Option.getD_some]
      simp
  simp only [call?, isPrefixOf?_append, Option.bind_eq_bind, Option.bind_some, hreturn,
    isSuffixOf?_append, Option.pure_def, String.ofList_toList]

/-- A call is returned unless the visitor returns nothing. -/
theorem returns_visitCall_iff (v : Visitor) (n : Node) :
    returns (Cpp.indent ++ Cpp.indent ++ visitCall v n) = true ↔ v.returnType ≠ "void" := by
  refine Iff.trans List.isPrefixOf_iff_prefix ?_
  unfold visitCall Visitor.returnsVoid
  split
  · next h => simpa [Cpp.indent] using h
  · next h =>
    refine iff_of_true ?_ (by simpa using h)
    simp [Cpp.indent]

end NodeHeader.Header

namespace NodeHeader.Table

/-- What a visitor needs fits together. The header announces the nodes of the table in order. Its
methods are, in order, one of the visitor interface for each node, which takes the node and is
named for it alone, one of the base type, which takes a visitor, and for each node the definition
of this same method, with one statement: it calls the visitor's method for this node on the
parameter, and returns the result exactly if the type of results is not `void`. No name of a
struct is used before a line that announces or defines the struct. -/
theorem scaffolding_header (t : Table) (o : Options) (d : Document) (v : Visitor)
    (hv : o.visitor = some v) (h : (t.header o).result = .ok d) :
    d.lines.filterMap Header.announced? = t.names ∧
    (t.names.map Header.visitName).Nodup ∧
    (Header.visitorName o.base :: o.base :: t.names).Nodup ∧
    (∃ (accept : Header.Signature) (statement : Node → String),
      Header.methodsIn d.lines =
        t.toList.map (fun n => (Header.visitorName o.base, .pure {
          returnType := v.returnType
          name := Header.visitName n.name
          parameter := { typeName := n.name ++ "&", name := "node" } })) ++
        (o.base, .pure accept) :: t.toList.map (fun n => (n.name, .override accept [statement n])) ∧
      accept.name = "Accept" ∧ accept.returnType = v.returnType ∧
      accept.parameter.typeName = Header.visitorName o.base ++ "&" ∧
      ∀ n ∈ t.toList,
        Header.call? accept.parameter.name (statement n) = some (Header.visitName n.name) ∧
        (Header.returns (statement n) = true ↔ v.returnType ≠ "void")) ∧
    Header.Scoped [] d.lines := by
  obtain ⟨hcheck, hlines⟩ := header_eq_ok_iff.1 h
  have htype : ∀ w, o.visitor = some w → Cpp.isTypeName w.returnType = true := fun w hw =>
    o.isTypeName_returnType hw
  have hstructs : (Header.structs o.toSettings t.toList).map Cpp.Struct.name =
      Header.visitorName o.base :: o.base :: t.names := by
    rw [Header.map_name_structs, hv]
    rfl
  refine ⟨?_, ?_, ?_, ⟨Header.acceptSignature o.base v,
    fun n => Cpp.indent ++ Cpp.indent ++ Header.visitCall v n, ?_, rfl, rfl, rfl, fun n _ =>
      ⟨Header.call?_visitCall v n, Header.returns_visitCall_iff v n⟩⟩, ?_⟩
  · rw [hlines, Header.filterMap_announced?_lines, hv]
    rfl
  · exact t.nodup_names.map Header.visitName_injective
  · rw [← hstructs]
    exact Header.nodup_structs hcheck
  · rw [hlines, Header.methodsIn_lines o.isIdentifier_base htype, Header.flatMap_methods_structs hv]
    rfl
  · rw [hlines]
    exact Header.scoped_lines o.isIdentifier_base htype t.toList

/-- The results may have a type named `virtual`, and a node the name `Visitor`: the definitions in
the nodes then start like methods that are left open, and differ from these at their ends. -/
theorem scaffolding_header_virtual : ∃ (t : Table) (o : Options) (d : Document),
    (ofList ["Visitor: int x", "struct_: Visitor* y"]).result = .ok t ∧
      o.visitor = some { returnType := "virtual" } ∧ (t.header o).result = .ok d ∧
      d.lines.filterMap Header.announced? = ["Visitor", "struct_"] ∧
      (∃ (accept : Header.Signature) (first second : String),
        Header.methodsIn d.lines =
          [("ExprVisitor", .pure ⟨"virtual", "VisitVisitor", ⟨"Visitor&", "node"⟩⟩),
            ("ExprVisitor", .pure ⟨"virtual", "Visitstruct_", ⟨"struct_&", "node"⟩⟩),
            ("Expr", .pure accept), ("Visitor", .override accept [first]),
            ("struct_", .override accept [second])] ∧
        Header.call? accept.parameter.name first = some "VisitVisitor" ∧
        Header.returns first = true) ∧
      Header.Scoped [] d.lines := by
  let n : Node :=
    { name := "Visitor"
      fields := [⟨"int", "x", by decide, by decide⟩]
      isIdentifier_name := by decide
      fields_ne_nil := by decide
      nodup_fields := by decide }
  let m : Node :=
    { name := "struct_"
      fields := [⟨"Visitor*", "y", by decide, by decide⟩]
      isIdentifier_name := by decide
      fields_ne_nil := by decide
      nodup_fields := by decide }
  let o : Options :=
    { visitor := some { returnType := "virtual" }
      holds_checks := by decide }
  have hreads : Reads (listEntries ["Visitor: int x", "struct_: Visitor* y"]) [n, m] := by rfl
  obtain ⟨t, ht, htoList, h⟩ := exists_header_of_reads hreads (by decide) o (by decide)
  obtain ⟨hannounced, -, -, ⟨accept, statement, hmethods, -, -, -, hstatement⟩, hscoped⟩ :=
    scaffolding_header t o _ { returnType := "virtual" } rfl h
  obtain ⟨hcall, hreturns⟩ := hstatement n (by rw [htoList]; exact List.mem_cons_self)
  refine ⟨t, o, _, ht, rfl, h, ?_, ⟨accept, statement n, statement m, ?_, hcall, ?_⟩, hscoped⟩
  · rw [hannounced, names, htoList]
    rfl
  · rw [hmethods, htoList]
    rfl
  · exact hreturns.2 (by decide)

end NodeHeader.Table
