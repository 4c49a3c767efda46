/-
  The grammar of entries.

  An entry is written as a name, a colon and a list of fields with commas between them; a
  field is a type and a name with blanks between them, and further blanks may stand around
  names, types and separators. `Spells` is this grammar together with the rules for names
  and types, said without trimming or splitting.

  `Entry.parse_eq_ok_iff` says that reading an entry gives a node exactly if the entry has a
  written form of that node. The step from a text to its parts is `cutAtColon_eq_some_iff`
  for the colon, and for the commas the two directions of `FieldsForm`
  (`fieldsForm_of_parseFields`, `parseFields_of_fieldsForm`); the blanks at the ends are moved
  in and out by `FieldsForm.append_blanks` and `FieldsForm.exists_last_word`.
-/
import NodeHeader.Definition.Entry
import NodeHeader.Proofs.Cpp.Identifier
import NodeHeader.Proofs.Definition.Node
import NodeHeader.Proofs.Traced

namespace NodeHeader

open NodeHeader.Text (isAllBlank isBlank trim words IsWord)

/-! ### Written forms -/

/-- The written forms of a field: its type and its name, with one blank or more between them
and any number of blanks around them. -/
def FieldForm (pair : String × String) (cs : List Char) : Prop :=
  ∃ before between after, cs = before ++ pair.1.toList ++ between ++ pair.2.toList ++ after ∧
    isAllBlank before = true ∧ isAllBlank between = true ∧ between ≠ [] ∧
    isAllBlank after = true

/-- The written forms of a list of fields, with commas between them. -/
inductive FieldsForm : List (String × String) → List Char → Prop
  | single {pair : String × String} {cs : List Char} (h : FieldForm pair cs) :
    FieldsForm [pair] cs
  | cons {pair : String × String} {cs : List Char} {pairs : List (String × String)}
    {rest : List Char} (h : FieldForm pair cs) (hrest : FieldsForm pairs rest) :
    FieldsForm (pair :: pairs) (cs ++ ',' :: rest)

/-- The written forms of an entry: its name with any number of blanks around it, a colon, and
its fields. -/
def EntryForm (name : String) (pairs : List (String × String)) (cs : List Char) : Prop :=
  ∃ before after body, cs = before ++ name.toList ++ after ++ ':' :: body ∧
    isAllBlank before = true ∧ isAllBlank after = true ∧ FieldsForm pairs body

/-- The text is a written form of an entry that names its node and fields well. -/
structure Spells (text name : String) (pairs : List (String × String)) : Prop where
  wellNamed : WellNamed name pairs
  entryForm : EntryForm name pairs text.toList

/-! ### One field -/

namespace Field

theorem isWord_typeName (f : Field) : IsWord f.typeName.toList :=
  Cpp.isWord_of_isTypeName f.isTypeName_typeName

theorem isWord_name (f : Field) : IsWord f.name.toList :=
  Cpp.isWord_of_isIdentifier f.isIdentifier_name

end Field

theorem not_mem_of_isAllBlank {cs : List Char} (h : isAllBlank cs = true) {c : Char}
    (hc : isBlank c = false) : c ∉ cs := by
  intro hmem
  rw [Text.isBlank_of_mem h c hmem] at hc
  exact absurd hc (by simp)

theorem FieldForm.comma_not_mem {f : Field} {cs : List Char} (h : FieldForm f.pair cs) :
    ',' ∉ cs := by
  obtain ⟨before, between, after, rfl, hb, hm, -, ha⟩ := h
  simp only [List.mem_append, not_or]
  exact ⟨⟨⟨⟨not_mem_of_isAllBlank hb (by decide),
    Cpp.not_mem_of_isTypeName f.isTypeName_typeName (by decide)⟩,
    not_mem_of_isAllBlank hm (by decide)⟩,
    Cpp.not_mem_of_isIdentifier f.isIdentifier_name (by decide)⟩,
    not_mem_of_isAllBlank ha (by decide)⟩

theorem Entry.parseField_eq_ok_iff {e : Entry} {position : Nat} {piece : List Char} {f : Field} :
    e.parseField position piece = .ok f ↔ FieldForm f.pair piece := by
  constructor
  · intro h
    unfold Entry.parseField at h
    split at h
    · next typeName name hwords =>
      have hmake : f.pair = (String.ofList typeName, String.ofList name) :=
        Field.make_eq_ok_iff.1 (Except.mapError_eq_ok_iff.1 h)
      obtain ⟨before, between, after, rfl, hb, -, hm, hne, -, ha⟩ :=
        Text.words_eq_pair_iff.1 hwords
      exact ⟨before, between, after, by simp [hmake], hb, hm, hne, ha⟩
    · cases h
  · rintro ⟨before, between, after, rfl, hb, hm, hne, ha⟩
    have hwords : words (before ++ f.pair.1.toList ++ between ++ f.pair.2.toList ++ after) =
        [f.typeName.toList, f.name.toList] :=
      Text.words_eq_pair_iff.2 ⟨before, between, after, rfl, hb, f.isWord_typeName, hm, hne,
        f.isWord_name, ha⟩
    have hmake : Field.make (String.ofList f.typeName.toList) (String.ofList f.name.toList) =
        .ok f := by
      rw [Field.make_eq_ok_iff, String.ofList_toList, String.ofList_toList]
      rfl
    rw [Entry.parseField, hwords]
    simp only [hmake]
    rfl

/-! ### The list of fields -/

namespace FieldsForm

theorem append_blanks {pairs : List (String × String)} {cs w : List Char}
    (h : FieldsForm pairs cs) (hw : isAllBlank w = true) : FieldsForm pairs (cs ++ w) := by
  induction h with
  | single h =>
    obtain ⟨before, between, after, rfl, hb, hm, hne, ha⟩ := h
    exact .single ⟨before, between, after ++ w, by simp, hb, hm, hne,
      Text.isAllBlank_append.2 ⟨ha, hw⟩⟩
  | cons h _ ih =>
    rw [List.append_assoc, List.cons_append]
    exact .cons h ih

/-- Without the blanks at its end a list of fields ends with a word, the last name. -/
theorem exists_last_word {pairs : List (String × String)} {cs : List Char}
    (h : FieldsForm pairs cs) (hn : ∀ p ∈ pairs, Cpp.isIdentifier p.2 = true) :
    ∃ middle last after, cs = middle ++ last ++ after ∧ IsWord last ∧
      isAllBlank after = true ∧ FieldsForm pairs (middle ++ last) := by
  induction h with
  | @single pair cs h =>
    obtain ⟨before, between, after, rfl, hb, hm, hne, ha⟩ := h
    refine ⟨before ++ pair.1.toList ++ between, pair.2.toList, after, rfl,
      Cpp.isWord_of_isIdentifier (hn pair List.mem_cons_self), ha, .single ?_⟩
    exact ⟨before, between, [], by simp, hb, hm, hne, rfl⟩
  | @cons pair cs pairs rest h _ ih =>
    obtain ⟨middle, last, after, rfl, hlast, ha, hform⟩ :=
      ih fun p hp => hn p (List.mem_cons_of_mem pair hp)
    refine ⟨cs ++ ',' :: middle, last, after, by simp, hlast, ha, ?_⟩
    rw [List.append_assoc, List.cons_append]
    exact .cons h hform

end FieldsForm

namespace Entry

theorem fieldsForm_of_parseFields {e : Entry} {pieces : List (List Char)} (hne : pieces ≠ [])
    {position : Nat} {fields : List Field} (h : e.parseFields position pieces = .ok fields) :
    FieldsForm (fields.map Field.pair) ([','].intercalate pieces) := by
  induction pieces generalizing position fields with
  | nil => exact absurd rfl hne
  | cons piece rest ih =>
    unfold parseFields at h
    obtain ⟨f, hfield, h⟩ := Except.bind_eq_ok_iff.1 h
    obtain ⟨fs, hrest, h⟩ := Except.bind_eq_ok_iff.1 h
    obtain rfl := Except.ok.inj h
    have hform : FieldForm f.pair piece := parseField_eq_ok_iff.1 hfield
    cases rest with
    | nil =>
      obtain rfl := Except.ok.inj hrest
      simpa using FieldsForm.single hform
    | cons next others =>
      rw [List.intercalate_cons_cons]
      simpa using FieldsForm.cons hform (ih (by simp) hrest)

/-- The pieces of a written form of fields are those from which they are read. -/
theorem parseFields_of_fieldsForm {e : Entry} {body : List Char} {pairs : List (String × String)}
    (h : FieldsForm pairs body) {fields : List Field} (hp : fields.map Field.pair = pairs)
    (position : Nat) : e.parseFields position (body.splitOn ',') = .ok fields := by
  induction h generalizing fields position with
  | single h =>
    obtain ⟨f, rfl, rfl⟩ := List.map_eq_singleton_iff.1 hp
    have hfield : e.parseField position _ = .ok f := parseField_eq_ok_iff.2 h
    rw [List.splitOn_eq_singleton h.comma_not_mem, parseFields, hfield]
    rfl
  | cons h _ ih =>
    obtain ⟨f, fs, rfl, rfl, hfs⟩ := List.map_eq_cons_iff.1 hp
    have hfield : e.parseField position _ = .ok f := parseField_eq_ok_iff.2 h
    rw [List.splitOn_append_cons_self_of_not_mem h.comma_not_mem, parseFields, hfield,
      ih hfs (position + 1)]
    rfl

/-! ### The colon -/

theorem cutAtColon_eq_some_iff {cs name body : List Char} :
    cutAtColon cs = some (name, body) ↔ cs = name ++ ':' :: body ∧ ':' ∉ name := by
  constructor
  · intro h
    unfold cutAtColon at h
    split at h
    · cases h
    · next c after hdrop =>
      obtain ⟨rfl, rfl⟩ := Prod.mk.inj (Option.some.inj h)
      have hne : cs.dropWhile (· ≠ ':') ≠ [] := by
        rw [hdrop]
        simp
      obtain rfl : c = ':' := by
        have hhead := List.head_dropWhile_not (· ≠ ':') hne
        simp only [hdrop, List.head_cons] at hhead
        simpa using hhead
      refine ⟨?_, ?_⟩
      · rw [← hdrop, List.takeWhile_append_dropWhile]
      · intro hmem
        have := List.all_eq_true.1 (List.all_takeWhile (p := (· ≠ ':'))) ':' hmem
        simp at this
  · rintro ⟨rfl, hname⟩
    rw [cutAtColon, Text.dropWhile_ne_append hname, Text.takeWhile_ne_append hname]

/-! ### Whole entries -/

/-- What reading an entry does once its name and its body are found. -/
theorem parse_of_cut {e : Entry} {name body : List Char} {fields : List Field}
    (hcut : cutAtColon (trim e.text.toList) = some (name, body))
    (hname : isAllBlank name = false) (hbody : isAllBlank body = false)
    (hfields : e.parseFields 0 (body.splitOn ',') = .ok fields) :
    e.parse =
      (Node.make (String.ofList (trim name)) fields).mapError (.invalid e.line e.trimmed) := by
  unfold parse
  rw [hcut]
  simp only [hname, hbody, hfields]
  rfl

theorem parse_of_entryForm {e : Entry} {n : Node} (h : EntryForm n.name n.pairs e.text.toList) :
    e.parse = .ok n := by
  obtain ⟨before, after, body, htext, hb, ha, hform⟩ := h
  obtain ⟨middle, last, blanks, rfl, hlast, hblanks, hform⟩ :=
    hform.exists_last_word n.wellNamed.isIdentifier_snd
  have hword : IsWord n.name.toList := Cpp.isWord_of_isIdentifier n.isIdentifier_name
  -- a written form begins with the name and ends with a name, up to blanks
  have htrim : trim e.text.toList = (n.name.toList ++ after) ++ ':' :: (middle ++ last) := by
    have hpad : e.text.toList =
        before ++ (n.name.toList ++ (after ++ ':' :: middle) ++ last) ++ blanks := by
      simp [htext]
    rw [hpad, Text.trim_pad hb hword hlast hblanks]
    simp
  have hcolon : ':' ∉ n.name.toList ++ after := by
    rw [List.mem_append, not_or]
    exact ⟨Cpp.not_mem_of_isIdentifier n.isIdentifier_name (by decide),
      not_mem_of_isAllBlank ha (by decide)⟩
  have hname : isAllBlank (n.name.toList ++ after) = false := by
    rw [Bool.eq_false_iff, Ne, Text.isAllBlank_append, hword.not_isAllBlank]
    simp
  have hbody : isAllBlank (middle ++ last) = false := by
    rw [Bool.eq_false_iff, Ne, Text.isAllBlank_append, hlast.not_isAllBlank]
    simp
  have hn : trim (n.name.toList ++ after) = n.name.toList := by
    rw [← List.nil_append (n.name.toList ++ after), ← List.append_assoc,
      Text.trim_pad_word rfl hword ha]
  rw [parse_of_cut (cutAtColon_eq_some_iff.2 ⟨htrim, hcolon⟩) hname hbody
    (parseFields_of_fieldsForm hform rfl 0), hn, String.ofList_toList,
    Node.make_eq_ok_iff.2 ⟨rfl, rfl⟩]
  rfl

theorem entryForm_of_parse {e : Entry} {n : Node} (h : e.parse = .ok n) :
    EntryForm n.name n.pairs e.text.toList := by
  unfold parse at h
  split at h
  · cases h
  · next name body hcut =>
    split at h
    · cases h
    split at h
    · cases h
    obtain ⟨fields, hfields, h⟩ := Except.bind_eq_ok_iff.1 h
    obtain ⟨hname, rfl⟩ := Node.make_eq_ok_iff.1 (Except.mapError_eq_ok_iff.1 h)
    -- the blanks that trimming took away go back around the name and after the fields
    obtain ⟨before, after, hb, ha, htext⟩ := Text.exists_pad_trim e.text.toList
    obtain ⟨before', after', hb', ha', hpad⟩ := Text.exists_pad_trim name
    obtain ⟨hcut, -⟩ := cutAtColon_eq_some_iff.1 hcut
    have hform : FieldsForm n.pairs body := by
      have hpieces := fieldsForm_of_parseFields (List.splitOn_ne_nil ',' body) hfields
      rwa [List.intercalate_splitOn] at hpieces
    refine ⟨before ++ before', after', body ++ after, ?_,
      Text.isAllBlank_append.2 ⟨hb, hb'⟩, ha', hform.append_blanks ha⟩
    rw [htext, hcut, hname, String.toList_ofList]
    conv_lhs => rw [hpad]
    simp

/-- Reading an entry gives a node exactly if the entry is a written form of it. -/
theorem parse_eq_ok_iff {e : Entry} {n : Node} :
    e.parse = .ok n ↔ Spells e.text n.name n.pairs :=
  ⟨fun h => ⟨n.wellNamed, entryForm_of_parse h⟩, fun h => parse_of_entryForm h.entryForm⟩

/-- Entries are read by a grammar: under every line number, a text is read as a node of a name
with fields of some types and names exactly if it spells these, and it spells at most one name
with one list of types and names. -/
theorem exists_parse_iff_spells (line : Nat) (text name : String)
    (pairs : List (String × String)) :
    ((∃ n, parse ⟨line, text⟩ = .ok n ∧ n.name = name ∧ n.pairs = pairs) ↔
      Spells text name pairs) ∧
    ∀ name' pairs', Spells text name pairs → Spells text name' pairs' →
      name' = name ∧ pairs' = pairs := by
  have hiff : ∀ name pairs, (∃ n, parse ⟨line, text⟩ = .ok n ∧ n.name = name ∧ n.pairs = pairs) ↔
      Spells text name pairs := by
    intro name pairs
    constructor
    · rintro ⟨n, hn, rfl, rfl⟩
      exact parse_eq_ok_iff.1 hn
    · intro h
      obtain ⟨n, rfl, rfl⟩ := h.wellNamed.exists_node
      exact ⟨n, parse_eq_ok_iff.2 h, rfl, rfl⟩
  refine ⟨hiff name pairs, fun name' pairs' h h' => ?_⟩
  obtain ⟨n, hn, rfl, rfl⟩ := (hiff name pairs).2 h
  obtain ⟨n', hn', rfl, rfl⟩ := (hiff name' pairs').2 h'
  obtain rfl := Except.ok.inj (hn.symm.trans hn')
  exact ⟨rfl, rfl⟩

/-- Blanks of several kinds around the parts, and a type that starts with colons. -/
theorem spells_spaced : Spells "\u00a0A\t: ::T\u3000x ,b::c  y" "A" [("::T", "x"), ("b::c", "y")] ∧
    ∀ name pairs, Spells "\u00a0A\t: ::T\u3000x ,b::c  y" name pairs →
      name = "A" ∧ pairs = [("::T", "x"), ("b::c", "y")] := by
  have h := exists_parse_iff_spells 1 "\u00a0A\t: ::T\u3000x ,b::c  y" "A"
    [("::T", "x"), ("b::c", "y")]
  have hspells := h.1.1
    ⟨{ name := "A"
       fields := [⟨"::T", "x", by decide, by decide⟩, ⟨"b::c", "y", by decide, by decide⟩]
       isIdentifier_name := by decide
       fields_ne_nil := by decide
       nodup_fields := by decide }, by rfl, rfl, rfl⟩
  exact ⟨hspells, fun name pairs => h.2 name pairs hspells⟩

end Entry

end NodeHeader
