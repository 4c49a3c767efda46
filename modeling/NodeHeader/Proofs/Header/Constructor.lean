/-
  The constructor of a node beside its fields.

  The fields of a node are written three times: as members, as the parameters of the
  constructor, and as what it initializes. Each list is read back from its line by what encloses
  it and by the separator (`listed?`), and gives the fields, all of them and in order
  (`Header.nodeStruct_mirrors_fields`). No part holds a comma, so the separators are those
  between the parts (`pieces_intercalate`).
-/
import NodeHeader.Proofs.Header.Scaffolding

namespace NodeHeader.Header

open NodeHeader.Cpp (Member Parameter Struct)

/-! ### Texts in pieces -/

/-- The pieces of a text between the occurrences of a mark, each looked for after the one
before. A mark that is empty cuts nothing. -/
def pieces (mark cs : List Char) : List (List Char) :=
  match cutAtFirst mark cs with
  | none => [cs]
  | some (before, after) =>
    if after.length < cs.length then before :: pieces mark after else [cs]
termination_by cs.length

/-- The texts that are listed on a line, between a text at its start and one at its end. -/
def listed? (first last line : String) : Option (List String) := do
  let text ← textBetween? first last line
  return (pieces ", ".toList text).map String.ofList

theorem pieces_of_not_mem {c : Char} {mark cs : List Char} (h : c ∉ cs) :
    pieces (c :: mark) cs = [cs] := by
  have hcut : cutAtFirst (c :: mark) cs = none := by
    cases hparts : cutAtFirst (c :: mark) cs with
    | none => rfl
    | some parts => exact absurd (mem_of_cutAtFirst hparts List.mem_cons_self) h
  rw [pieces, hcut]

/-- A piece without the first character of the mark ends at the mark. -/
theorem pieces_append {c : Char} {mark before : List Char} (h : c ∉ before) (after : List Char) :
    pieces (c :: mark) (before ++ (c :: mark) ++ after) = before :: pieces (c :: mark) after := by
  have hlt : after.length < (before ++ (c :: mark) ++ after).length := by
    simp only [List.length_append, List.length_cons]
    omega
  rw [pieces, cutAtFirst_append h]
  exact if_pos hlt

/-- Texts that were joined by a mark are its pieces. -/
theorem pieces_intercalate {c : Char} {mark : List Char} {texts : List (List Char)}
    (hne : texts ≠ []) (h : ∀ text ∈ texts, c ∉ text) :
    pieces (c :: mark) ((c :: mark).intercalate texts) = texts := by
  induction texts with
  | nil => exact absurd rfl hne
  | cons text rest ih =>
    obtain ⟨htext, hrest⟩ := List.forall_mem_cons.1 h
    cases rest with
    | nil => rw [List.intercalate_singleton, pieces_of_not_mem htext]
    | cons next more =>
      rw [List.intercalate_cons_cons, pieces_append htext, ih (by simp) hrest]

/-- What is listed on a line is listed there, if it holds no comma. -/
theorem listed?_commaSeparated {texts : List String} (hne : texts ≠ [])
    (h : ∀ text ∈ texts, ',' ∉ text.toList) (first last : String) :
    listed? first last (first ++ Member.commaSeparated texts ++ last) = some texts := by
  have htexts : (Member.commaSeparated texts).toList =
      [',', ' '].intercalate (texts.map String.toList) := by
    rw [Member.commaSeparated, String.toList_intercalate]
    rfl
  have hpieces : pieces ", ".toList ([',', ' '].intercalate (texts.map String.toList)) =
      texts.map String.toList :=
    pieces_intercalate (by simpa using hne) (List.forall_mem_map.2 h)
  rw [String.append_assoc, listed?, textBetween?_append, htexts, Option.bind_eq_bind,
    Option.bind_some, hpieces, List.map_map]
  simp [Function.comp_def]

/-! ### The fields of a node -/

theorem comma_not_mem_reference {f : Field} : ',' ∉ (f.typeName ++ " " ++ f.name).toList := by
  have htype : ',' ∉ f.typeName.toList :=
    Cpp.not_mem_of_isTypeName f.isTypeName_typeName (by decide)
  have hname : ',' ∉ f.name.toList := Cpp.not_mem_of_isIdentifier f.isIdentifier_name (by decide)
  simp [htype, hname]

/-- The lines of a node: its heading, its fields, the two of the constructor, what it has for a
visitor, and its end. -/
theorem lines_nodeStruct (base : String) (visitor : Option Visitor) (n : Node) :
    (nodeStruct base visitor n).lines = (nodeStruct base visitor n).heading ++
      (n.fields.map (fun f => Cpp.indent ++ "const " ++ f.typeName ++ " " ++ f.name ++ ";") ++
        ((Member.constructor n.name (parameters n)).lines ++
          ((visitor.toList.map fun v => acceptOverride base v n).flatMap Member.lines ++
            ["\x7d;"]))) := by
  rw [← flatMap_lines_fields]
  simp [nodeStruct, Struct.lines, Struct.comment]

theorem length_lines_acceptOverride (base : String) (visitor : Option Visitor) (n : Node) :
    ((visitor.toList.map fun v => acceptOverride base v n).flatMap Member.lines).length =
      if visitor.isSome then 3 else 0 := by
  cases visitor <;> rfl

/-- The line of the constructor lists the fields, each by its type and its name. -/
theorem listed?_parameters (n : Node) :
    listed? (Cpp.indent ++ n.name ++ "(") ")" (Cpp.indent ++ n.name ++ "(" ++
      Member.commaSeparated ((parameters n).map Parameter.text) ++ ")") =
      some (n.fields.map fun f => f.typeName ++ " " ++ f.name) := by
  have htexts : (parameters n).map Parameter.text =
      n.fields.map fun f => f.typeName ++ " " ++ f.name := by
    rw [parameters, List.map_map]
    rfl
  rw [htexts]
  refine listed?_commaSeparated (by simpa using n.fields_ne_nil) ?_ _ _
  exact List.forall_mem_map.2 fun f _ => comma_not_mem_reference

/-- The line below lists what is initialized: each field, by the parameter of its name. -/
theorem listed?_initializers (n : Node) :
    listed? (Cpp.indent ++ ": ") "\x7b\x7d" (Cpp.indent ++ ": " ++
      Member.commaSeparated ((parameters n).map fun p => p.name ++ "(" ++ p.name ++ ")") ++
        "\x7b\x7d") =
      some (n.fields.map fun f => f.name ++ "(" ++ f.name ++ ")") := by
  have htexts : ((parameters n).map fun p => p.name ++ "(" ++ p.name ++ ")") =
      n.fields.map fun f => f.name ++ "(" ++ f.name ++ ")" := by
    rw [parameters, List.map_map]
    rfl
  rw [htexts]
  refine listed?_commaSeparated (by simpa using n.fields_ne_nil) ?_ _ _
  refine List.forall_mem_map.2 fun f _ => ?_
  have hname : ',' ∉ f.name.toList := Cpp.not_mem_of_isIdentifier f.isIdentifier_name (by decide)
  simp [hname]

/-- The fields of a node are its members, the parameters of its constructor and what this
initializes: three lists of the same length and in the same order. Each is read back from the
lines of the node, the members line by line and the others by what encloses them and by the
separator, so none of the parts is split and no two are merged. Besides there are five lines, and
three more with a visitor. -/
theorem nodeStruct_mirrors_fields (base : String) (visitor : Option Visitor) (n : Node) :
    (nodeStruct base visitor n).lines.length =
      n.fields.length + (if visitor.isSome then 8 else 5) ∧
    ((nodeStruct base visitor n).lines.drop 2).take n.fields.length =
      n.fields.map (fun f => "    const " ++ f.typeName ++ " " ++ f.name ++ ";") ∧
    (nodeStruct base visitor n).lines[n.fields.length + 2]?.bind
        (listed? ("    " ++ n.name ++ "(") ")") =
      some (n.fields.map fun f => f.typeName ++ " " ++ f.name) ∧
    (nodeStruct base visitor n).lines[n.fields.length + 3]?.bind (listed? "    : " "\x7b\x7d") =
      some (n.fields.map fun f => f.name ++ "(" ++ f.name ++ ")") := by
  have hdrop : (nodeStruct base visitor n).lines.drop 2 =
      n.fields.map (fun f => Cpp.indent ++ "const " ++ f.typeName ++ " " ++ f.name ++ ";") ++
        ((Member.constructor n.name (parameters n)).lines ++
          ((visitor.toList.map fun v => acceptOverride base v n).flatMap Member.lines ++
            ["\x7d;"])) := by
    rw [lines_nodeStruct]
    exact List.drop_left' rfl
  have hnext (i : Nat) : (nodeStruct base visitor n).lines[n.fields.length + (2 + i)]? =
      ((Member.constructor n.name (parameters n)).lines ++
        ((visitor.toList.map fun v => acceptOverride base v n).flatMap Member.lines ++
          ["\x7d;"]))[i]? := by
    have hi : n.fields.length + (2 + i) = 2 + (n.fields.length + i) := by omega
    rw [hi, ← List.getElem?_drop, hdrop, List.getElem?_append_right (by simp)]
    simp
  refine ⟨?_, ?_, ?_, ?_⟩
  · have hheading : (nodeStruct base visitor n).heading.length = 2 := rfl
    have hconstructor : (Member.constructor n.name (parameters n)).lines.length = 2 := rfl
    rw [lines_nodeStruct]
    simp only [List.length_append, List.length_map, List.length_singleton, hheading,
      hconstructor, length_lines_acceptOverride]
    split <;> omega
  · rw [hdrop]
    exact List.take_left' (by simp)
  · rw [hnext 0]
    exact listed?_parameters n
  · rw [hnext 1]
    exact listed?_initializers n

end NodeHeader.Header
