/-
  The structs that the lines of a header define.

  The definition of a struct starts on a line of its own, `struct X {`, `struct X { };` or
  `struct X : public B {`, and goes on to the next line that ends one. `blocks` reads the
  definitions off any lines, each with what stands between its first line and its end, and
  knows nothing of how a header is laid out.

  From a header it reads the structs that the header is written from, in order and with all their
  lines, and nothing else (`blocks_lines`). So each of them is defined once
  (`Table.definitions_header`).
-/
import NodeHeader.Proofs.Header.DeclaredNames
import NodeHeader.Proofs.Header.ReadBack

namespace NodeHeader.Header

open NodeHeader.Cpp (Member Struct)

/-! ### Reading definitions -/

/-- A struct as lines define it. -/
structure Block where
  name : String
  parent : Option String
  /-- The lines between the first one and the end. -/
  body : List String
deriving DecidableEq, Repr

/-- The name and the parent of the struct whose definition starts on a line. -/
def definition? (line : String) : Option (String × Option String) := do
  let rest ← "struct ".toList.isPrefixOf? line.toList
  let head ← (" \x7b \x7d;".toList.isSuffixOf? rest).or (" \x7b".toList.isSuffixOf? rest)
  match cutAtFirst " : public ".toList head with
  | some (name, parent) => some (String.ofList name, some (String.ofList parent))
  | none => some (String.ofList head, none)

/-- Whether more lines of the struct follow the one on which its definition starts. -/
def opensBody (line : String) : Bool :=
  line.toList.getLast? = some '\x7b'

/-- The body of the struct whose definition starts on a line, with more lines after it. -/
def bodyAfter (line : String) (after : List String) : List String :=
  if opensBody line then after.takeWhile (· ≠ "\x7d;") else []

/-- The structs that lines define, in order. -/
def blocks : List String → List Block
  | [] => []
  | line :: rest =>
    match definition? line with
    | none => blocks rest
    | some (name, parent) => ⟨name, parent, bodyAfter line rest⟩ :: blocks rest

/-- The lines of the definition that starts on a line, the one that ends it included. -/
def definitionLines (line : String) (after : List String) : List String :=
  line :: (bodyAfter line after ++ if opensBody line then ["\x7d;"] else [])

/-- The blocks are those of the lines on which a definition starts. -/
theorem filterMap_definition? (lines : List String) :
    lines.filterMap definition? = (blocks lines).map fun b => (b.name, b.parent) := by
  induction lines with
  | nil => rfl
  | cons line rest ih =>
    rw [blocks, List.filterMap_cons]
    cases definition? line with
    | none => exact ih
    | some c => rw [ih]; rfl

/-! ### Single lines -/

theorem isPrefixOf?_struct_eq_none {line : String} (h : line.toList.head? ≠ some 's') :
    "struct ".toList.isPrefixOf? line.toList = none := by
  rw [isPrefixOf?_eq_none_iff]
  rintro ⟨rest, hrest⟩
  rw [← hrest] at h
  exact h rfl

theorem definition?_eq_none_of_head {line : String} (h : line.toList.head? ≠ some 's') :
    definition? line = none := by
  rw [definition?, isPrefixOf?_struct_eq_none h]
  rfl

theorem definition?_eq_none_of_not_mem {line : String} (h : '\x7b' ∉ line.toList) :
    definition? line = none := by
  unfold definition?
  cases hp : "struct ".toList.isPrefixOf? line.toList with
  | none => rfl
  | some rest =>
    have hrest : '\x7b' ∉ rest := by
      rw [← List.isPrefixOf?_eq_some_iff_append_eq.1 hp] at h
      exact fun hmem => h (List.mem_append_right _ hmem)
    have hnot (mark : List Char) (hmark : '\x7b' ∈ mark) : mark.isSuffixOf? rest = none :=
      isSuffixOf?_eq_none_iff.2 fun hsuffix => hrest (hsuffix.mem hmark)
    simp only [Option.bind_eq_bind, Option.bind_some, hnot " \x7b \x7d;".toList (by decide),
      hnot " \x7b".toList (by decide), Option.or_none, Option.bind_none]

theorem not_suffix_of_getLast? {mark cs : List Char} (hne : mark ≠ [])
    (h : cs.getLast? ≠ mark.getLast?) : ¬ mark <:+ cs := by
  rintro ⟨front, rfl⟩
  exact h (List.getLast?_append_of_ne_nil _ hne)

/-- What is read from the text before the brackets of a definition. -/
theorem definition?_append {ending : String} (h : ending = " \x7b" ∨ ending = " \x7b \x7d;")
    (head : String) : definition? ("struct " ++ (head ++ ending)) =
      match cutAtFirst " : public ".toList head.toList with
      | some (name, parent) => some (String.ofList name, some (String.ofList parent))
      | none => some (head, none) := by
  have hhead : (" \x7b \x7d;".toList.isSuffixOf? (head ++ ending).toList).or
      (" \x7b".toList.isSuffixOf? (head ++ ending).toList) = some head.toList := by
    -- the longer ending is looked for first, and a line with the other one does not have it
    rcases h with rfl | rfl
    · have hnone : " \x7b \x7d;".toList.isSuffixOf? (head ++ " \x7b").toList = none := by
        refine isSuffixOf?_eq_none_iff.2 (not_suffix_of_getLast? (by decide) ?_)
        exact getLast?_append_ne _ rfl (by decide)
      rw [hnone, isSuffixOf?_append, Option.none_or]
    · rw [isSuffixOf?_append, Option.some_or]
  simp only [definition?, isPrefixOf?_append, Option.bind_eq_bind, Option.bind_some, hhead,
    String.ofList_toList]

section Lines

variable {name : String} (hname : ∀ c ∈ name.toList, Cpp.isIdentifierChar c = true)

include hname

theorem not_mem_of_isIdentifierChar {c : Char} (hc : Cpp.isIdentifierChar c = false) :
    c ∉ name.toList := by
  intro hmem
  rw [hname c hmem] at hc
  cases hc

theorem definition?_heading (parent : String) :
    definition? ("struct " ++ name ++ " : public " ++ parent ++ " \x7b") =
      some (name, some parent) := by
  have hline : "struct " ++ name ++ " : public " ++ parent ++ " \x7b" =
      "struct " ++ (name ++ " : public " ++ parent ++ " \x7b") := by
    simp only [String.append_assoc]
  have hcut : cutAtFirst " : public ".toList (name ++ " : public " ++ parent).toList =
      some (name.toList, parent.toList) := by
    rw [String.toList_append, String.toList_append]
    exact cutAtFirst_append (not_mem_of_isIdentifierChar hname (by decide))
  rw [hline, definition?_append (.inl rfl), hcut]
  simp only [String.ofList_toList]

theorem definition?_of_no_parent {ending : String}
    (h : ending = " \x7b" ∨ ending = " \x7b \x7d;") :
    definition? ("struct " ++ name ++ ending) = some (name, none) := by
  have hcut : cutAtFirst " : public ".toList name.toList = none := by
    rw [Option.eq_none_iff_forall_ne_some]
    intro parts hparts
    exact not_mem_of_isIdentifierChar hname (c := ':') (by decide)
      (mem_of_cutAtFirst hparts (by decide))
  rw [String.append_assoc, definition?_append h, hcut]

end Lines

/-! ### Plain lines -/

/-- A line that is neither indented nor starts like a definition. -/
structure Plain (line : String) : Prop where
  head_ne : line.toList.head? ≠ some 's'
  not_indented : ¬ Cpp.indent.toList <+: line.toList

theorem plain_iff {line : String} :
    Plain line ↔ line.toList.head? ≠ some 's' ∧ ¬ Cpp.indent.toList <+: line.toList :=
  ⟨fun h => ⟨h.head_ne, h.not_indented⟩, fun h => ⟨h.1, h.2⟩⟩

theorem plain_empty : Plain "" :=
  plain_iff.2 (by decide)

theorem plain_end : Plain "\x7d;" :=
  plain_iff.2 (by decide)

theorem plain_of_mem_comment {c : Struct} : ∀ line ∈ c.comment, Plain line := by
  unfold Struct.comment
  split <;> simp [plain_iff, Cpp.indent]

theorem definition?_of_plain {line : String} (h : Plain line) : definition? line = none :=
  definition?_eq_none_of_head h.head_ne

/-! ### Structs -/

/-- The lines of a struct between the one that opens it and its end. -/
def bodyLines (c : Struct) : List String :=
  c.heading.tail ++ c.members.flatMap Member.lines

/-- A struct as its lines define it. -/
def Block.ofStruct (c : Struct) : Block where
  name := c.name
  parent := c.parent
  body := bodyLines c

theorem blocks_append {before : List String} (h : ∀ line ∈ before, definition? line = none)
    (rest : List String) : blocks (before ++ rest) = blocks rest := by
  induction before with
  | nil => rfl
  | cons line others ih =>
    rw [List.cons_append, blocks, h line List.mem_cons_self]
    exact ih fun l hl => h l (List.mem_cons_of_mem line hl)

theorem head?_of_mem_bodyLines {c : Struct} :
    ∀ line ∈ bodyLines c, line.toList.head? = some ' ' ∨ line = "public:" := by
  intro line hline
  rcases List.mem_append.1 hline with hline | hline
  · unfold Struct.heading at hline
    split at hline
    · cases hline
    · exact .inr (List.mem_singleton.1 hline)
  · obtain ⟨m, -, hline⟩ := List.mem_flatMap.1 hline
    exact .inl (Member.head?_of_mem_lines line hline)

theorem definition?_of_mem_bodyLines {c : Struct} :
    ∀ line ∈ bodyLines c, definition? line = none := by
  intro line hline
  rcases head?_of_mem_bodyLines line hline with hhead | rfl
  · exact definition?_eq_none_of_head (by simp [hhead])
  · exact definition?_eq_none_of_head (by decide)

theorem end_not_mem_bodyLines (c : Struct) : "\x7d;" ∉ bodyLines c := by
  intro hmem
  rcases head?_of_mem_bodyLines _ hmem with hhead | heq
  · exact absurd hhead (by decide)
  · exact absurd heq (by decide)

theorem definition?_of_mem_bodyLines_or_end {c : Struct} {line : String}
    (h : line ∈ bodyLines c ∨ line = "\x7d;") : definition? line = none := by
  rcases h with h | rfl
  · exact definition?_of_mem_bodyLines line h
  · exact definition?_of_plain plain_end

theorem bodyAfter_bodyLines {c : Struct} {opening : String} (h : opensBody opening = true)
    (rest : List String) :
    bodyAfter opening (bodyLines c ++ ["\x7d;"] ++ rest) = bodyLines c ∧
      definitionLines opening (bodyLines c ++ ["\x7d;"] ++ rest) =
        opening :: (bodyLines c ++ ["\x7d;"]) := by
  have hbody : bodyAfter opening (bodyLines c ++ ["\x7d;"] ++ rest) = bodyLines c := by
    rw [bodyAfter, if_pos h, List.append_assoc]
    exact Text.takeWhile_ne_append (end_not_mem_bodyLines c) rest
  exact ⟨hbody, by rw [definitionLines, hbody, if_pos h]⟩

/-- The line on which the definition of a struct starts, and what comes after it: the body and the
end, or nothing if there is no body. -/
theorem exists_lines_eq_comment {c : Struct}
    (hname : ∀ ch ∈ c.name.toList, Cpp.isIdentifierChar ch = true) :
    ∃ opening after, c.lines = c.comment ++ opening :: after ∧
      definition? opening = some (c.name, c.parent) ∧ opening.toList.head? = some 's' ∧
      (∀ line ∈ after, line ∈ bodyLines c ∨ line = "\x7d;") ∧
      ∀ rest, bodyAfter opening (after ++ rest) = bodyLines c ∧
        definitionLines opening (after ++ rest) = opening :: after := by
  have hopens (text : String) : opensBody (text ++ " \x7b") = true :=
    decide_eq_true (getLast?_append_eq text rfl)
  have hclosed (text : String) : opensBody (text ++ " \x7b \x7d;") = false :=
    decide_eq_false (getLast?_append_ne text rfl (by decide))
  have hmem : ∀ line ∈ bodyLines c ++ ["\x7d;"], line ∈ bodyLines c ∨ line = "\x7d;" :=
    fun line hline => (List.mem_append.1 hline).imp_right List.mem_singleton.1
  -- the three forms of the line that opens a struct
  cases hparent : c.parent with
  | some parent =>
    have hlines : c.lines = c.comment ++
        ("struct " ++ c.name ++ " : public " ++ parent ++ " \x7b") ::
          (bodyLines c ++ ["\x7d;"]) := by
      simp [Struct.lines, bodyLines, Struct.heading, hparent]
    exact ⟨_, _, hlines, definition?_heading hname parent, by simp, hmem,
      bodyAfter_bodyLines (hopens _)⟩
  | none =>
    by_cases hmembers : c.members = []
    · have hlines : c.lines = c.comment ++ [("struct " ++ c.name ++ " \x7b \x7d;")] := by
        simp [Struct.lines, hparent, hmembers]
      have hbody : bodyLines c = [] := by simp [bodyLines, Struct.heading, hparent, hmembers]
      refine ⟨_, _, hlines, definition?_of_no_parent hname (.inr rfl), by simp,
        List.forall_mem_nil _, fun rest => ?_⟩
      simp [definitionLines, bodyAfter, hclosed, hbody]
    · have hlines : c.lines = c.comment ++ ("struct " ++ c.name ++ " \x7b") ::
          (bodyLines c ++ ["\x7d;"]) := by
        simp [Struct.lines, bodyLines, Struct.heading, hparent, hmembers]
      exact ⟨_, _, hlines, definition?_of_no_parent hname (.inl rfl), by simp, hmem,
        bodyAfter_bodyLines (hopens _)⟩

/-- From the lines of a struct the struct is read. -/
theorem blocks_struct {c : Struct} (hname : ∀ ch ∈ c.name.toList, Cpp.isIdentifierChar ch = true)
    (rest : List String) : blocks (c.lines ++ rest) = .ofStruct c :: blocks rest := by
  obtain ⟨opening, after, hlines, hdefinition, -, hafter, hbody⟩ := exists_lines_eq_comment hname
  have hcomment : ∀ line ∈ c.comment, definition? line = none := fun line hline =>
    definition?_of_plain (plain_of_mem_comment line hline)
  have hnone : ∀ line ∈ after, definition? line = none := fun line hline =>
    definition?_of_mem_bodyLines_or_end (hafter line hline)
  rw [hlines, List.append_assoc, blocks_append hcomment, List.cons_append, blocks, hdefinition,
    blocks_append hnone]
  exact congrArg (fun body => Block.mk c.name c.parent body :: blocks rest) (hbody rest).1

/-! ### Outside of the structs -/

/-- The lines before the structs are plain, but for the announcements of the nodes. -/
theorem exists_opening_eq (s : Settings) (nodes : List Node) :
    ∃ front, ((opening s nodes).take 4).flatMap spaced =
        front ++ spaced (s.visitor.elim [] fun _ => forwardDeclarations nodes) ∧
      ∀ line ∈ front, Plain line := by
  have hcomment : ∀ line ∈ s.metadata.comment ++ Guard.opening s.guard, Plain line :=
    List.forall_mem_append.2
      ⟨by simp [Metadata.comment, plain_iff, Cpp.indent],
        by simp [Guard.opening, plain_iff, Cpp.indent]⟩
  have hincludes : ∀ line ∈ includeLines s.includes, Plain line := by
    simp [includeLines, plain_iff, Cpp.indent]
  have hnamespace : ∀ line ∈ namespaceOpening s.namespaceName, Plain line := by
    unfold namespaceOpening
    split <;> simp [plain_iff, Cpp.indent]
  refine ⟨spaced (s.metadata.comment ++ Guard.opening s.guard) ++
    (spaced (includeLines s.includes) ++ spaced (namespaceOpening s.namespaceName)), ?_, ?_⟩
  · simp only [opening, List.take_succ_cons, List.take_zero, List.flatMap_cons, List.flatMap_nil,
      List.append_assoc, List.append_nil]
  · exact List.forall_mem_append.2
      ⟨forall_mem_spaced plain_empty hcomment, List.forall_mem_append.2
        ⟨forall_mem_spaced plain_empty hincludes, forall_mem_spaced plain_empty hnamespace⟩⟩

theorem plain_of_mem_closing (s : Settings) : ∀ line ∈ closing s, Plain line := by
  unfold closing namespaceClosing Guard.closing
  split <;> simp [plain_iff, Cpp.indent]

theorem definition?_forward (n : Node) : definition? (Struct.forward n.name) = none := by
  have hname := Cpp.not_mem_of_isIdentifier n.isIdentifier_name (c := '\x7b') (by decide)
  exact definition?_eq_none_of_not_mem (by simpa [Struct.forward] using hname)

/-- What holds of plain lines and of the announcements holds of all lines before the structs. -/
theorem forall_mem_opening {P : String → Prop} {nodes : List Node}
    (hplain : ∀ line, Plain line → P line) (hforward : ∀ n ∈ nodes, P (Struct.forward n.name))
    (s : Settings) :
    ∀ line ∈ ((opening s nodes).take 4).flatMap spaced, P line := by
  obtain ⟨front, hopening, hfront⟩ := exists_opening_eq s nodes
  have hannouncements : ∀ line ∈ s.visitor.elim [] fun _ => forwardDeclarations nodes, P line := by
    cases s.visitor with
    | none => exact List.forall_mem_nil _
    | some v => exact List.forall_mem_map.2 hforward
  rw [hopening, List.forall_mem_append]
  exact ⟨fun line hline => hplain line (hfront line hline),
    forall_mem_spaced (hplain "" plain_empty) hannouncements⟩

/-- What is found before the structs is found on the announcements, unless a plain line may show
it. -/
theorem filterMap_opening {α : Type} {f : String → Option α}
    (h : ∀ line, Plain line → f line = none) (s : Settings) (nodes : List Node) :
    (((opening s nodes).take 4).flatMap spaced).filterMap f =
      (s.visitor.elim [] fun _ => forwardDeclarations nodes).filterMap f := by
  obtain ⟨front, hopening, hfront⟩ := exists_opening_eq s nodes
  have hnone : front.filterMap f = [] :=
    List.filterMap_eq_nil_iff.2 fun line hline => h line (hfront line hline)
  rw [hopening, List.filterMap_append, hnone, List.nil_append]
  unfold spaced
  split
  · next hempty => rw [List.isEmpty_iff.1 hempty]
  · rw [List.filterMap_append, List.filterMap_cons_none (h "" plain_empty), List.filterMap_nil,
      List.append_nil]

/-! ### A whole header -/

theorem isIdentifierChar_of_mem_structs {s : Settings} (hbase : Cpp.isIdentifier s.base = true)
    {nodes : List Node} : ∀ c ∈ structs s nodes, ∀ ch ∈ c.name.toList,
      Cpp.isIdentifierChar ch = true := by
  have hchars := Cpp.isIdentifierChar_of_mem hbase
  have hvisitor : ∀ ch ∈ "Visitor".toList, Cpp.isIdentifierChar ch = true :=
    List.all_eq_true.1 (by decide)
  simp only [structs, List.forall_mem_append, List.forall_mem_cons, List.forall_mem_map]
  refine ⟨fun v _ => ?_, hchars, fun n _ => Cpp.isIdentifierChar_of_mem n.isIdentifier_name⟩
  show ∀ ch ∈ (s.base ++ "Visitor").toList, _
  rw [String.toList_append]
  exact List.forall_mem_append.2 ⟨hchars, hvisitor⟩

theorem blocks_structs {cs : List Struct}
    (hnames : ∀ c ∈ cs, ∀ ch ∈ c.name.toList, Cpp.isIdentifierChar ch = true)
    (rest : List String) :
    blocks (cs.flatMap (fun c => c.lines ++ [""]) ++ rest) =
      cs.map .ofStruct ++ blocks rest := by
  induction cs with
  | nil => rfl
  | cons c others ih =>
    have hothers := ih fun c' hc' => hnames c' (List.mem_cons_of_mem c hc')
    have hempty : definition? "" = none := definition?_of_plain plain_empty
    rw [List.flatMap_cons, List.append_assoc, List.append_assoc,
      blocks_struct (hnames c List.mem_cons_self), List.singleton_append, blocks, hempty]
    exact congrArg _ hothers

/-- Where a list is split at an element with a property, what it starts with stands before the
split, as long as it has no such element. -/
theorem exists_append_of_append_cons {α : Type} {p : α → Prop} {front back before after : List α}
    {a : α} (hfront : ∀ x ∈ front, ¬ p x) (ha : p a) (h : front ++ back = before ++ a :: after) :
    ∃ middle, before = front ++ middle ∧ back = middle ++ a :: after := by
  rcases List.append_eq_append_iff.1 h with ⟨middle, hbefore, hback⟩ | ⟨middle, rfl, hmiddle⟩
  · exact ⟨middle, hbefore, hback⟩
  · cases middle with
    | nil => exact ⟨[], by simp, hmiddle.symm⟩
    | cons b others =>
      obtain ⟨rfl, -⟩ := List.cons.inj hmiddle
      exact absurd ha (hfront a (List.mem_append_right _ List.mem_cons_self))

/-- Where a definition starts on the lines of a struct or after them, it is that of the struct, or
it starts after them. -/
theorem split_struct_append {c : Struct}
    (hname : ∀ ch ∈ c.name.toList, Cpp.isIdentifierChar ch = true) {rest before after : List String}
    {line : String} (hline : definition? line ≠ none)
    (h : c.lines ++ "" :: rest = before ++ line :: after) :
    before = c.comment ∧ c.lines = c.comment ++ definitionLines line after ∧
      definitionLines line after <+: line :: after ∨
    ∃ middle, before = c.lines ++ "" :: middle ∧ rest = middle ++ line :: after := by
  obtain ⟨opening, tail, hlines, -, -, htail, hdefinition⟩ := exists_lines_eq_comment hname
  have hcomment : ∀ l ∈ c.comment, ¬ definition? l ≠ none := fun l hl =>
    not_not.2 (definition?_of_plain (plain_of_mem_comment l hl))
  have hafter : ∀ l ∈ tail ++ [""], ¬ definition? l ≠ none := by
    refine List.forall_mem_append.2 ⟨fun l hl => ?_, List.forall_mem_singleton.2 ?_⟩
    · exact not_not.2 (definition?_of_mem_bodyLines_or_end (htail l hl))
    · exact not_not.2 (definition?_of_plain plain_empty)
  rw [hlines, List.append_assoc] at h
  obtain ⟨middle, rfl, hmiddle⟩ := exists_append_of_append_cons hcomment hline h
  rw [List.cons_append] at hmiddle
  cases middle with
  | nil =>
    -- the line is the one that opens the struct
    obtain ⟨rfl, rfl⟩ := List.cons.inj hmiddle
    refine .inl ⟨List.append_nil _, ?_, ?_⟩
    · rw [(hdefinition _).2, hlines]
    · rw [(hdefinition _).2, ← List.cons_append]
      exact List.prefix_append _ _
  | cons first middle =>
    -- no definition starts on the other lines of the struct
    obtain ⟨rfl, hbehind⟩ := List.cons.inj hmiddle
    have hsplit : tail ++ [""] ++ rest = middle ++ line :: after := by
      rw [List.append_assoc]
      exact hbehind
    obtain ⟨middle, rfl, hrest⟩ := exists_append_of_append_cons hafter hline hsplit
    refine .inr ⟨middle, ?_, hrest⟩
    rw [hlines]
    simp only [List.append_assoc, List.cons_append, List.nil_append]

/-- Where a definition starts on the lines of structs, that of one of them does, and its lines
are those of the struct after its comment. -/
theorem exists_struct_of_definition? {cs : List Struct}
    (hnames : ∀ c ∈ cs, ∀ ch ∈ c.name.toList, Cpp.isIdentifierChar ch = true)
    {rest : List String} (hrest : ∀ line ∈ rest, definition? line = none)
    {before after : List String} {line : String} (hline : definition? line ≠ none)
    (h : cs.flatMap (fun c => c.lines ++ [""]) ++ rest = before ++ line :: after) :
    ∃ front c back, cs = front ++ c :: back ∧
      before = front.flatMap (fun c => c.lines ++ [""]) ++ c.comment ∧
      c.lines = c.comment ++ definitionLines line after ∧
      definitionLines line after <+: line :: after := by
  induction cs generalizing before with
  | nil =>
    rw [List.flatMap_nil, List.nil_append] at h
    exact absurd (hrest line (h ▸ List.mem_append_right _ List.mem_cons_self)) hline
  | cons c others ih =>
    rw [List.forall_mem_cons] at hnames
    rw [List.flatMap_cons, List.append_assoc, List.append_assoc, List.singleton_append] at h
    rcases split_struct_append hnames.1 hline h with ⟨rfl, hlines⟩ | ⟨middle, rfl, hmiddle⟩
    · exact ⟨[], c, others, rfl, rfl, hlines⟩
    · obtain ⟨front, c', back, rfl, rfl, hlines⟩ := ih hnames.2 hmiddle
      refine ⟨c :: front, c', back, rfl, ?_, hlines⟩
      rw [List.flatMap_cons, List.append_assoc, List.append_assoc, List.singleton_append]

/-- The structs of a header are read from its lines, and nothing else is. -/
theorem blocks_lines {s : Settings} (hbase : Cpp.isIdentifier s.base = true) (nodes : List Node) :
    blocks (lines s nodes) = (structs s nodes).map .ofStruct := by
  have hopening : ∀ line ∈ ((opening s nodes).take 4).flatMap spaced, definition? line = none :=
    forall_mem_opening (fun _ => definition?_of_plain) (fun n _ => definition?_forward n) s
  have hclosing : blocks (closing s ++ []) = blocks [] :=
    blocks_append (fun line hline => definition?_of_plain (plain_of_mem_closing s line hline)) []
  rw [List.append_nil] at hclosing
  rw [lines_eq_structs, List.append_assoc, blocks_append hopening,
    blocks_structs (isIdentifierChar_of_mem_structs hbase), hclosing, blocks, List.append_nil]

/-! ### Names and fields -/

theorem map_ofStruct_structs (s : Settings) (nodes : List Node) :
    (structs s nodes).map (fun c => (c.name, c.parent)) =
      (s.visitor.toList.map fun _ => (visitorName s.base, none)) ++
        (s.base, none) :: nodes.map fun n => (n.name, some s.base) := by
  rw [structs, List.map_append, List.map_map, List.map_cons, List.map_map]
  rfl

theorem map_name_structs (s : Settings) (nodes : List Node) :
    (structs s nodes).map Struct.name =
      (s.visitor.toList.map fun _ => visitorName s.base) ++ s.base :: nodes.map Node.name := by
  rw [structs, List.map_append, List.map_map, List.map_cons, List.map_map]
  rfl

theorem visitorName_ne (base : String) : visitorName base ≠ base := by
  intro heq
  have hlength := congrArg String.length heq
  rw [visitorName, String.length_append] at hlength
  have hvisitor : "Visitor".length = 7 := rfl
  omega

/-- No two structs of a header have one name. -/
theorem nodup_structs {t : Table} {o : Options} (h : t.check o.toSettings = .ok ()) :
    ((structs o.toSettings t.toList).map Struct.name).Nodup := by
  have hfree (n : Node) (hn : n ∈ t.toList) := Conflict.ofNode?_eq_none_iff.1
    (Table.check_eq_ok_iff.1 h n hn)
  have hbase : o.base ∉ t.names := by
    intro hmem
    obtain ⟨n, hn, heq⟩ := List.mem_map.1 hmem
    exact (hfree n hn).1 heq
  rw [map_name_structs]
  cases hv : o.visitor with
  | none => exact List.nodup_cons.2 ⟨hbase, t.nodup_names⟩
  | some v =>
    have hvisitor : visitorName o.base ∉ o.base :: t.names := by
      rw [List.mem_cons]
      rintro (heq | hmem)
      · exact visitorName_ne o.base heq
      · obtain ⟨n, hn, heq⟩ := List.mem_map.1 hmem
        exact (hfree n hn).2.1 (by rw [hv]; rfl) heq
    exact List.nodup_cons.2 ⟨hvisitor, List.nodup_cons.2 ⟨hbase, t.nodup_names⟩⟩

/-- The type and the name of the constant that a line declares. -/
def constant? (line : String) : Option Cpp.Parameter := do
  let text ← declaration? line
  let (typeName, name) ← cutAtLast ' ' text
  return { typeName := String.ofList typeName, name := String.ofList name }

theorem constant?_field (f : Field) :
    constant? (Cpp.indent ++ "const " ++ f.typeName ++ " " ++ f.name ++ ";") =
      some { typeName := f.typeName, name := f.name } := by
  have hcut : cutAtLast ' ' (f.typeName.toList ++ ' ' :: f.name.toList) =
      some (f.typeName.toList, f.name.toList) :=
    cutAtLast_append (Cpp.not_mem_of_isIdentifier f.isIdentifier_name (by decide))
  rw [constant?, declaration?_field]
  simp [hcut]

theorem constant?_of_passive {line : String} (h : Passive line) : constant? line = none := by
  rw [constant?, h.declaration?_eq_none]
  rfl

theorem flatMap_lines_fields (fields : List Field) :
    (fields.map fun f => Member.field f.typeName f.name).flatMap Member.lines =
      fields.map fun f => Cpp.indent ++ "const " ++ f.typeName ++ " " ++ f.name ++ ";" := by
  rw [List.flatMap_map, List.map_eq_flatMap]
  rfl

/-- The body of a node shows its fields as constants, and nothing else as one. -/
theorem filterMap_constant?_nodeStruct (base : String) (v : Option Visitor) (n : Node) :
    (bodyLines (nodeStruct base v n)).filterMap constant? = parameters n := by
  have hbody : bodyLines (nodeStruct base v n) = "public:" ::
      ((n.fields.map fun f => Member.field f.typeName f.name).flatMap Member.lines ++
        ((Member.constructor n.name (parameters n)).lines ++
          (v.toList.map fun v => acceptOverride base v n).flatMap Member.lines)) := by
    simp [bodyLines, nodeStruct, Struct.heading]
  have hfields : (n.fields.map fun f =>
      Cpp.indent ++ "const " ++ f.typeName ++ " " ++ f.name ++ ";").filterMap constant? =
      parameters n := by
    rw [List.filterMap_map, parameters, ← List.filterMap_eq_map]
    exact List.filterMap_congr fun f _ => constant?_field f
  have hpassive {lines : List String} (hlines : ∀ line ∈ lines, Passive line) :
      lines.filterMap constant? = [] :=
    List.filterMap_eq_nil_iff.2 fun line hline => constant?_of_passive (hlines line hline)
  have hoverrides : ∀ line ∈ (v.toList.map fun v => acceptOverride base v n).flatMap Member.lines,
      Passive line := by
    intro line hline
    simp only [List.flatMap_map, List.mem_flatMap] at hline
    obtain ⟨w, -, hline⟩ := hline
    exact passive_override _ _ _ _ line hline
  rw [hbody, List.filterMap_cons_none (constant?_of_passive passive_label), List.filterMap_append,
    List.filterMap_append, flatMap_lines_fields, hfields, hpassive (passive_constructor _ _),
    hpassive hoverrides, List.append_nil, List.append_nil]

end NodeHeader.Header

namespace NodeHeader.Table

open NodeHeader.Cpp (Member Parameter)

/-- The structs that a header defines are, in this order, the visitor interface if there is a
visitor, the base type, and the nodes of the table, all of different names, and the nodes derive
from the base type. Without a visitor each node consists of constants of different names, none
of which is its own, and a constructor with these as its parameters. -/
theorem definitions_header (t : Table) (o : Options) (d : Document)
    (h : (t.header o).result = .ok d) :
    (d.lines.filterMap Header.definition? =
      (o.visitor.toList.map fun _ => (Header.visitorName o.base, none)) ++
        (o.base, none) :: t.names.map fun name => (name, some o.base)) ∧
    ((d.lines.filterMap Header.definition?).map Prod.fst).Nodup ∧
    (o.visitor = none → ∀ b ∈ Header.blocks d.lines, b.parent.isSome = true →
      ∃ fields, b.body.filterMap Header.constant? = fields ∧
        b.body = "public:" ::
          (fields.map fun p => Member.field p.typeName p.name).flatMap Member.lines ++
            (Member.constructor b.name fields).lines ∧
        (fields.map Parameter.name).Nodup ∧ b.name ∉ fields.map Parameter.name) := by
  obtain ⟨hcheck, hlines⟩ := header_eq_ok_iff.1 h
  have hblocks : Header.blocks d.lines =
      (Header.structs o.toSettings t.toList).map Header.Block.ofStruct :=
    hlines ▸ Header.blocks_lines o.isIdentifier_base t.toList
  have hdefinitions : d.lines.filterMap Header.definition? =
      (Header.structs o.toSettings t.toList).map fun c => (c.name, c.parent) := by
    rw [Header.filterMap_definition?, hblocks, List.map_map]
    rfl
  refine ⟨?_, ?_, fun hv b hb hparent => ?_⟩
  · rw [hdefinitions, Header.map_ofStruct_structs, names, List.map_map]
    rfl
  · rw [hdefinitions, List.map_map]
    exact Header.nodup_structs hcheck
  · rw [hblocks, Header.structs, hv] at hb
    simp only [Option.toList_none, List.map_nil, List.nil_append, List.map_cons, List.mem_cons,
      List.map_map, List.mem_map] at hb
    rcases hb with rfl | ⟨n, hn, rfl⟩
    · cases hparent
    · have hnames : (Header.parameters n).map Parameter.name = n.fields.map Field.name := by
        rw [Header.parameters, List.map_map]
        rfl
      have hbody : Header.bodyLines (Header.nodeStruct o.base none n) = "public:" ::
          ((Header.parameters n).map fun p => Member.field p.typeName p.name).flatMap
            Member.lines ++ (Member.constructor n.name (Header.parameters n)).lines := by
        simp [Header.bodyLines, Header.nodeStruct, Cpp.Struct.heading, Header.parameters,
          Function.comp_def]
      refine ⟨Header.parameters n, Header.filterMap_constant?_nodeStruct o.base none n, hbody,
        ?_, ?_⟩
      · rw [hnames]
        exact n.nodup_fields
      · rw [hnames]
        exact (Conflict.ofNode?_eq_none_iff.1 (check_eq_ok_iff.1 hcheck n hn)).2.2

/-- Without a visitor a node may be named like the interface of one. Texts that look like
definitions are none where they are no lines of their own. -/
theorem definitions_header_lookalikes : ∃ (t : Table) (o : Options) (d : Document),
    (ofList ["ExprVisitor: int x, A* y"]).result = .ok t ∧
      o.toSettings = { includes := ["<struct>"], metadata := { title := "struct X \x7b" } } ∧
      (t.header o).result = .ok d ∧
      d.lines.filterMap Header.definition? = [("Expr", none), ("ExprVisitor", some "Expr")] ∧
      ((d.lines.filterMap Header.definition?).map Prod.fst).Nodup := by
  let n : Node :=
    { name := "ExprVisitor"
      fields := [⟨"int", "x", by decide, by decide⟩, ⟨"A*", "y", by decide, by decide⟩]
      isIdentifier_name := by decide
      fields_ne_nil := by decide
      nodup_fields := by decide }
  let o : Options :=
    { includes := ["<struct>"], metadata := { title := "struct X \x7b" }
      holds_checks := by decide }
  have hreads : Reads (listEntries ["ExprVisitor: int x, A* y"]) [n] := by rfl
  obtain ⟨t, ht, htoList, h⟩ := exists_header_of_reads hreads (by decide) o (by decide)
  obtain ⟨hdefinitions, hnodup, -⟩ := definitions_header t o _ h
  refine ⟨t, o, _, ht, rfl, h, hdefinitions.trans ?_, hnodup⟩
  rw [names, htoList]
  rfl

end NodeHeader.Table
