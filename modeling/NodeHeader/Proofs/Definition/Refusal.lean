/-
  Which fault an entry is refused for.

  `Entry.Refused` says for an entry what it is refused with: first its shape up to the colon is
  looked at, then its fields one after another (`FieldFault`), and only then its name and the names
  of its fields as a whole (`BodyFault`). An entry with several faults is refused for the first of
  them in this order, and for no other (`Entry.parse_eq_error_iff`).

  For the fields this is an induction along the pieces between the commas, which carries the number
  of the fields that were read (`Entry.parseFields_eq_error_iff`). For the node it rests on what
  `Field.make` and `Node.make` refuse (`Field.make_eq_error_iff`, `Node.make_eq_error_iff`): since
  there is a field for each piece, a node without fields is never the cause.
-/
import NodeHeader.Proofs.Definition.Grammar
import Mathlib.Data.List.Forall2

namespace NodeHeader

open NodeHeader.Text (isAllBlank trim words)

/-! ### What fields and nodes are refused for -/

/-- The rule that a field breaks. Its name is looked at before its type. -/
inductive Field.Breaks (typeName name : String) : DeclarationError → Prop
  | badName (h : Cpp.isIdentifier name = false) : Breaks typeName name (.badName "field" name)
  | badType (hname : Cpp.isIdentifier name = true) (h : Cpp.isTypeName typeName = false) :
    Breaks typeName name (.badType name typeName)

theorem Field.make_eq_error_iff {typeName name : String} {cause : DeclarationError} :
    make typeName name = .error cause ↔ Breaks typeName name cause := by
  cases hname : Cpp.isIdentifier name with
  | false =>
    rw [make, checkName_of_not_isIdentifier _ hname]
    constructor
    · intro h
      obtain rfl := Except.error.inj h
      exact .badName hname
    · rintro (- | ⟨htrue, -⟩)
      · rfl
      · cases hname.symm.trans htrue
  | true =>
    rw [make, checkName_of_isIdentifier _ hname]
    constructor
    · intro h
      obtain ⟨htype, rfl⟩ : Cpp.isTypeName typeName = false ∧ .badType name typeName = cause := by
        dsimp only [bind, Except.bind] at h
        split at h
        · cases h
        · next htype => exact ⟨Bool.eq_false_iff.2 htype, Except.error.inj h⟩
      exact .badType hname htype
    · rintro (hfalse | ⟨-, htype⟩)
      · cases hname.symm.trans hfalse
      · exact dif_neg (Bool.eq_false_iff.1 htype)

/-- The first element that occurred before has only different ones before it. -/
theorem firstRepeat?_eq_some_iff {α : Type} [DecidableEq α] {seen xs : List α} {x : α} :
    firstRepeat? seen xs = some x ↔ ∃ before after, xs = before ++ x :: after ∧ before.Nodup ∧
      (∀ y ∈ before, y ∉ seen) ∧ (x ∈ seen ∨ x ∈ before) := by
  induction xs generalizing seen with
  | nil => simp [firstRepeat?]
  | cons y rest ih =>
    by_cases hy : y ∈ seen
    · rw [firstRepeat?, if_pos hy]
      constructor
      · intro h
        obtain rfl := Option.some.inj h
        exact ⟨[], rest, rfl, List.nodup_nil, List.forall_mem_nil _, .inl hy⟩
      · rintro ⟨before, after, hxs, -, hbefore, -⟩
        cases before with
        | nil => rw [(List.cons.inj hxs).1]
        | cons z before =>
          obtain ⟨rfl, -⟩ := List.cons.inj hxs
          exact absurd hy (hbefore y List.mem_cons_self)
    · rw [firstRepeat?, if_neg hy, ih]
      constructor
      · rintro ⟨before, after, rfl, hnodup, hbefore, hx⟩
        simp only [List.mem_cons, not_or] at hbefore hx
        refine ⟨y :: before, after, rfl, ?_, ?_, ?_⟩
        · exact List.nodup_cons.2 ⟨fun hmem => (hbefore y hmem).1 rfl, hnodup⟩
        · exact List.forall_mem_cons.2 ⟨hy, fun z hz => (hbefore z hz).2⟩
        · simp only [List.mem_cons]
          tauto
      · rintro ⟨before, after, hxs, hnodup, hbefore, hx⟩
        cases before with
        | nil =>
          obtain ⟨rfl, -⟩ := List.cons.inj hxs
          simp [hy] at hx
        | cons z before =>
          obtain ⟨rfl, rfl⟩ := List.cons.inj hxs
          obtain ⟨hnot, hnodup⟩ := List.nodup_cons.1 hnodup
          obtain ⟨-, hbefore⟩ := List.forall_mem_cons.1 hbefore
          refine ⟨before, after, rfl, hnodup, fun z hz => ?_, ?_⟩
          · rw [List.mem_cons, not_or]
            exact ⟨fun heq => hnot (heq ▸ hz), hbefore z hz⟩
          · simp only [List.mem_cons] at hx ⊢
            tauto

/-- The rule that a node breaks. Its name is looked at first. -/
inductive Node.Breaks (name : String) (fields : List Field) : DeclarationError → Prop
  | badName (h : Cpp.isIdentifier name = false) : Breaks name fields (.badName "node" name)
  | noFields (hname : Cpp.isIdentifier name = true) (h : fields = []) :
    Breaks name fields (.noFields name)
  /-- A field has a name that occurs before it, and none of those before has one. -/
  | repeatedField {field : String} {before after : List String}
    (hname : Cpp.isIdentifier name = true)
    (h : fields.map Field.name = before ++ field :: after) (hnodup : before.Nodup)
    (hmem : field ∈ before) : Breaks name fields (.repeatedField name field)

theorem Node.make_eq_error_iff {name : String} {fields : List Field} {cause : DeclarationError} :
    make name fields = .error cause ↔ Breaks name fields cause := by
  cases hname : Cpp.isIdentifier name with
  | false =>
    rw [make, checkName_of_not_isIdentifier _ hname]
    constructor
    · intro h
      obtain rfl := Except.error.inj h
      exact .badName hname
    · rintro (- | ⟨htrue, -⟩ | ⟨htrue, -, -, -⟩)
      · rfl
      · cases hname.symm.trans htrue
      · cases hname.symm.trans htrue
  | true =>
    rw [make, checkName_of_isIdentifier _ hname]
    constructor
    · intro h
      dsimp only [bind, Except.bind] at h
      split at h
      · next hnil =>
        obtain rfl := Except.error.inj h
        exact .noFields hname hnil
      · split at h
        · next field hrepeat =>
          obtain rfl := Except.error.inj h
          obtain ⟨before, after, hfields, hnodup, -, hmem⟩ := firstRepeat?_eq_some_iff.1 hrepeat
          exact .repeatedField hname hfields hnodup (hmem.resolve_left List.not_mem_nil)
        · cases h
    · rintro (hfalse | ⟨-, hnil⟩ | ⟨-, hfields, hnodup, hmem⟩)
      · cases hname.symm.trans hfalse
      · exact dif_pos hnil
      · have hne : fields ≠ [] := by
          rintro rfl
          simp at hfields
        have hrepeat : firstRepeat? [] (fields.map Field.name) = some _ :=
          firstRepeat?_eq_some_iff.2
            ⟨_, _, hfields, hnodup, fun _ _ => List.not_mem_nil, .inr hmem⟩
        refine (dif_neg hne).trans ?_
        split
        · next field hfield => rw [Option.some.inj (hfield.symm.trans hrepeat)]
        · next hnone => rw [hnone] at hrepeat; cases hrepeat

/-! ### What an entry is refused with -/

/-- What the piece at a position is refused with: it is not two words, or its two words make no
field. -/
inductive FieldFault (e : Entry) (position : Nat) (piece : List Char) : DefinitionError → Prop
  | shape (h : (words piece).length ≠ 2) :
    FieldFault e position piece
      (.malformedField e.line e.trimmed position (String.ofList (trim piece)))
  | badName {typeName name : List Char} (hwords : words piece = [typeName, name])
    (h : Cpp.isIdentifier (String.ofList name) = false) :
    FieldFault e position piece
      (.invalid e.line e.trimmed (.badName "field" (String.ofList name)))
  | badType {typeName name : List Char} (hwords : words piece = [typeName, name])
    (hname : Cpp.isIdentifier (String.ofList name) = true)
    (h : Cpp.isTypeName (String.ofList typeName) = false) :
    FieldFault e position piece
      (.invalid e.line e.trimmed (.badType (String.ofList name) (String.ofList typeName)))

/-- What a name and the pieces between commas are refused with: the first piece that is at fault;
or, where each piece spells a field, the name, and then the first field with a name that occurred
before. -/
inductive BodyFault (e : Entry) (name : String) (pieces : List (List Char)) :
    DefinitionError → Prop
  | field {before after : List (List Char)} {piece : List Char} {err : DefinitionError}
    (hpieces : pieces = before ++ piece :: after)
    (hbefore : ∀ p ∈ before, ∃ f : Field, FieldForm f.pair p)
    (h : FieldFault e before.length piece err) : BodyFault e name pieces err
  | badName {fields : List Field}
    (hfields : List.Forall₂ (fun f piece => FieldForm f.pair piece) fields pieces)
    (h : Cpp.isIdentifier name = false) :
    BodyFault e name pieces (.invalid e.line e.trimmed (.badName "node" name))
  | repeatedField {fields : List Field} {field : String} {before after : List String}
    (hfields : List.Forall₂ (fun f piece => FieldForm f.pair piece) fields pieces)
    (hname : Cpp.isIdentifier name = true)
    (h : fields.map Field.name = before ++ field :: after) (hnodup : before.Nodup)
    (hmem : field ∈ before) :
    BodyFault e name pieces (.invalid e.line e.trimmed (.repeatedField name field))

namespace Entry

/-- The entry, without the blanks around it, is a name and a body with its first colon between
them. -/
structure HasParts (e : Entry) (name body : List Char) : Prop where
  trim_eq : trim e.text.toList = name ++ ':' :: body
  colon_not_mem : ':' ∉ name

/-- What an entry is refused with. -/
inductive Refused (e : Entry) : DefinitionError → Prop
  | noColon (h : ':' ∉ trim e.text.toList) : Refused e (.malformedEntry e.line e.trimmed)
  | noName {name body : List Char} (hparts : e.HasParts name body)
    (h : isAllBlank name = true) : Refused e (.malformedEntry e.line e.trimmed)
  | noBody {name body : List Char} (hparts : e.HasParts name body)
    (hname : isAllBlank name = false) (h : isAllBlank body = true) :
    Refused e (.noFields e.line e.trimmed)
  | body {name body : List Char} {err : DefinitionError} (hparts : e.HasParts name body)
    (hname : isAllBlank name = false) (hbody : isAllBlank body = false)
    (h : BodyFault e (String.ofList (trim name)) (body.splitOn ',') err) : Refused e err

/-! ### Fields -/

variable {e : Entry} {err : DefinitionError}

theorem parseField_eq_error_iff {position : Nat} {piece : List Char} :
    e.parseField position piece = .error err ↔ FieldFault e position piece err := by
  constructor
  · intro h
    unfold parseField at h
    split at h
    · next typeName name hwords =>
      obtain ⟨cause, hmake, rfl⟩ := Except.mapError_eq_error_iff.1 h
      cases Field.make_eq_error_iff.1 hmake with
      | badName hname => exact .badName hwords hname
      | badType hname htype => exact .badType hwords hname htype
    · next hwords =>
      obtain rfl := Except.error.inj h
      refine .shape fun hlen => ?_
      obtain ⟨typeName, name, hpair⟩ := List.length_eq_two.1 hlen
      exact hwords typeName name hpair
  · rintro (hlen | ⟨hwords, hname⟩ | ⟨hwords, hname, htype⟩)
    · unfold parseField
      split
      · next hwords => exact absurd (by rw [hwords]; rfl) hlen
      · rfl
    · rw [parseField, hwords]
      exact Except.mapError_eq_error_iff.2 ⟨_, Field.make_eq_error_iff.2 (.badName hname), rfl⟩
    · rw [parseField, hwords]
      exact Except.mapError_eq_error_iff.2
        ⟨_, Field.make_eq_error_iff.2 (.badType hname htype), rfl⟩

theorem parseFields_eq_ok_iff {position : Nat} {pieces : List (List Char)} {fields : List Field} :
    e.parseFields position pieces = .ok fields ↔
      List.Forall₂ (fun f piece => FieldForm f.pair piece) fields pieces := by
  induction pieces generalizing position fields with
  | nil =>
    rw [List.forall₂_nil_right_iff]
    exact ⟨fun h => (Except.ok.inj h).symm, fun h => by rw [h]; rfl⟩
  | cons piece rest ih =>
    rw [List.forall₂_cons_right_iff]
    constructor
    · intro h
      obtain ⟨f, hfield, h⟩ := Except.bind_eq_ok_iff.1 h
      obtain ⟨fs, hrest, h⟩ := Except.bind_eq_ok_iff.1 h
      obtain rfl := Except.ok.inj h
      exact ⟨f, fs, parseField_eq_ok_iff.1 hfield, ih.1 hrest, rfl⟩
    · rintro ⟨f, fs, hform, hforms, rfl⟩
      rw [parseFields, parseField_eq_ok_iff.2 hform, ih.2 hforms]
      rfl

/-- Fields are refused for the first piece at fault, under its number. -/
theorem parseFields_eq_error_iff {position : Nat} {pieces : List (List Char)} :
    e.parseFields position pieces = .error err ↔ ∃ before piece after,
      pieces = before ++ piece :: after ∧ (∀ p ∈ before, ∃ f : Field, FieldForm f.pair p) ∧
      FieldFault e (position + before.length) piece err := by
  induction pieces generalizing position with
  | nil => exact iff_of_false nofun (by simp)
  | cons piece rest ih =>
    constructor
    · intro h
      rcases Except.bind_eq_error_iff.1 h with hfield | ⟨f, hfield, h⟩
      · exact ⟨[], piece, rest, rfl, List.forall_mem_nil _, parseField_eq_error_iff.1 hfield⟩
      rcases Except.bind_eq_error_iff.1 h with hrest | ⟨fs, -, h⟩
      · -- the fault is after this piece, which spells a field
        obtain ⟨before, bad, after, rfl, hbefore, hfault⟩ := ih.1 hrest
        refine ⟨piece :: before, bad, after, rfl, ?_, ?_⟩
        · exact List.forall_mem_cons.2 ⟨⟨f, parseField_eq_ok_iff.1 hfield⟩, hbefore⟩
        · rwa [List.length_cons, Nat.add_comm before.length, ← Nat.add_assoc]
      · cases h
    · rintro ⟨before, bad, after, hpieces, hbefore, hfault⟩
      cases before with
      | nil =>
        obtain ⟨rfl, -⟩ := List.cons.inj hpieces
        have hfield : e.parseField position piece = .error err := parseField_eq_error_iff.2 hfault
        rw [parseFields, hfield]
        rfl
      | cons first before =>
        obtain ⟨rfl, rfl⟩ := List.cons.inj hpieces
        obtain ⟨⟨f, hform⟩, hbefore⟩ := List.forall_mem_cons.1 hbefore
        rw [List.length_cons, Nat.add_comm before.length, ← Nat.add_assoc] at hfault
        rw [parseFields, parseField_eq_ok_iff.2 hform,
          ih.2 ⟨before, bad, after, rfl, hbefore, hfault⟩]
        rfl

/-! ### Whole entries -/

theorem bodyFault_iff {name : String} {pieces : List (List Char)} (hne : pieces ≠ []) :
    BodyFault e name pieces err ↔ e.parseFields 0 pieces = .error err ∨
      ∃ fields, e.parseFields 0 pieces = .ok fields ∧
        (Node.make name fields).mapError (.invalid e.line e.trimmed) = .error err := by
  simp only [parseFields_eq_error_iff, parseFields_eq_ok_iff, Except.mapError_eq_error_iff,
    Node.make_eq_error_iff, Nat.zero_add]
  constructor
  · rintro (⟨hpieces, hbefore, h⟩ | ⟨hfields, h⟩ | ⟨hfields, hname, h, hnodup, hmem⟩)
    · exact .inl ⟨_, _, _, hpieces, hbefore, h⟩
    · exact .inr ⟨_, hfields, _, .badName h, rfl⟩
    · exact .inr ⟨_, hfields, _, .repeatedField hname h hnodup hmem, rfl⟩
  · rintro (⟨before, piece, after, hpieces, hbefore, h⟩ | ⟨fields, hfields, cause, h, rfl⟩)
    · exact .field hpieces hbefore h
    · cases h with
      | badName hname => exact .badName hfields hname
      | noFields _ hnil =>
        -- there is a field for each piece
        subst hnil
        exact absurd (List.forall₂_nil_left_iff.1 hfields) hne
      | repeatedField hname hnames hnodup hmem =>
        exact .repeatedField hfields hname hnames hnodup hmem

theorem cutAtColon_eq_none_iff {cs : List Char} : cutAtColon cs = none ↔ ':' ∉ cs := by
  constructor
  · intro h hmem
    obtain ⟨name, body, rfl, hname⟩ := List.eq_append_cons_of_mem hmem
    rw [cutAtColon_eq_some_iff.2 ⟨rfl, hname⟩] at h
    cases h
  · intro h
    cases hcut : cutAtColon cs with
    | none => rfl
    | some parts =>
      obtain ⟨rfl, -⟩ := cutAtColon_eq_some_iff.1 hcut
      simp at h

/-- What reading an entry does once its colon is found. -/
theorem parse_of_hasParts {name body : List Char} (h : e.HasParts name body) :
    e.parse = if isAllBlank name = true then .error (.malformedEntry e.line e.trimmed)
      else if isAllBlank body = true then .error (.noFields e.line e.trimmed)
      else e.parseFields 0 (body.splitOn ',') >>= fun fields =>
        (Node.make (String.ofList (trim name)) fields).mapError (.invalid e.line e.trimmed) := by
  rw [parse, cutAtColon_eq_some_iff.2 ⟨h.trim_eq, h.colon_not_mem⟩]

/-- An entry is refused exactly with what its first fault calls for. -/
theorem parse_eq_error_iff : e.parse = .error err ↔ Refused e err := by
  constructor
  · intro h
    cases hcut : cutAtColon (trim e.text.toList) with
    | none =>
      rw [parse, hcut] at h
      obtain rfl := Except.error.inj h
      exact .noColon (cutAtColon_eq_none_iff.1 hcut)
    | some parts =>
      obtain ⟨name, body⟩ := parts
      obtain ⟨htrim, hcolon⟩ := cutAtColon_eq_some_iff.1 hcut
      have hparts : e.HasParts name body := ⟨htrim, hcolon⟩
      rw [parse_of_hasParts hparts] at h
      split at h
      · next hname =>
        obtain rfl := Except.error.inj h
        exact .noName hparts hname
      split at h
      · next hname hbody =>
        obtain rfl := Except.error.inj h
        exact .noBody hparts (Bool.eq_false_iff.2 hname) hbody
      · next hname hbody =>
        refine .body hparts (Bool.eq_false_iff.2 hname) (Bool.eq_false_iff.2 hbody) ?_
        exact (bodyFault_iff (List.splitOn_ne_nil ',' body)).2 (Except.bind_eq_error_iff.1 h)
  · rintro (hcolon | ⟨hparts, hname⟩ | ⟨hparts, hname, hbody⟩ | ⟨hparts, hname, hbody, h⟩)
    · rw [parse, cutAtColon_eq_none_iff.2 hcolon]
    · rw [parse_of_hasParts hparts, if_pos hname]
    · rw [parse_of_hasParts hparts, if_neg (Bool.eq_false_iff.1 hname), if_pos hbody]
    · rw [parse_of_hasParts hparts, if_neg (Bool.eq_false_iff.1 hname),
        if_neg (Bool.eq_false_iff.1 hbody)]
      exact Except.bind_eq_error_iff.2 ((bodyFault_iff (List.splitOn_ne_nil ',' _)).1 h)

end Entry

/-! ### What is never reported -/

/-- The refusal shows the line and the text of an entry. -/
inductive DefinitionError.Shows (line : Nat) (entry : String) : DefinitionError → Prop
  | malformedEntry : Shows line entry (.malformedEntry line entry)
  | malformedField {position : Nat} {field : String} :
    Shows line entry (.malformedField line entry position field)
  | noFields : Shows line entry (.noFields line entry)
  | invalid {cause : DeclarationError} : Shows line entry (.invalid line entry cause)

theorem FieldFault.shows {e : Entry} {position : Nat} {piece : List Char} {err : DefinitionError}
    (h : FieldFault e position piece err) : err.Shows e.line e.trimmed := by
  cases h with
  | shape _ => exact .malformedField
  | badName _ _ => exact .invalid
  | badType _ _ _ => exact .invalid

namespace Entry

variable {e : Entry} {err : DefinitionError}

theorem Refused.shows (h : Refused e err) : err.Shows e.line e.trimmed := by
  cases h with
  | noColon _ => exact .malformedEntry
  | noName _ _ => exact .malformedEntry
  | noBody _ _ _ => exact .noFields
  | body _ _ _ h =>
    cases h with
    | field _ _ h => exact h.shows
    | badName _ _ => exact .invalid
    | repeatedField _ _ _ _ _ => exact .invalid

theorem parse_ne_noFields (e : Entry) (line : Nat) (entry node : String) :
    e.parse ≠ .error (.invalid line entry (.noFields node)) := by
  intro h
  cases parse_eq_error_iff.1 h with
  | body _ _ _ h =>
    cases h with
    | field _ _ h => cases h

theorem parse_ne_repeatedNode (e : Entry) (line : Nat) (entry node : String) :
    e.parse ≠ .error (.invalid line entry (.repeatedNode node)) := by
  intro h
  cases parse_eq_error_iff.1 h with
  | body _ _ _ h =>
    cases h with
    | field _ _ h => cases h

/-- An entry is refused exactly with what its first fault calls for: no colon or no name before it,
nothing after it, the first piece between commas that is not two words or whose words make no field,
a name that is no identifier, and the first field with a name that occurred before. The refusal
shows the line of the entry and the entry without the blanks around it. A node without fields or one
of a repeated name is never its cause, and neither are other entries or a file. -/
theorem parse_refuses_first_fault (e : Entry) :
    (∀ err, e.parse = .error err ↔ Refused e err) ∧
    (∀ err, e.parse = .error err → err.Shows e.line e.trimmed) ∧
    (∀ line entry node, e.parse ≠ .error (.invalid line entry (.noFields node))) ∧
    (∀ line entry name, e.parse ≠ .error (.invalid line entry (.repeatedNode name))) ∧
    (∀ line name firstLine, e.parse ≠ .error (.repeatedNode line name firstLine)) ∧
    ∀ cause, e.parse ≠ .error (.unreadable cause) := by
  have hshows : ∀ err, e.parse = .error err → err.Shows e.line e.trimmed :=
    fun err h => (parse_eq_error_iff.1 h).shows
  refine ⟨fun err => parse_eq_error_iff, hshows, e.parse_ne_noFields, e.parse_ne_repeatedNode,
    fun line name firstLine h => ?_, fun cause h => ?_⟩
  · cases hshows _ h
  · cases hshows _ h

/-- Of a bad name, a field of one word, a field with a bad name and a repeated field, the field that
comes first is reported; without the bad fields it is the name, and with a good name the first
field that repeats one. -/
theorem parse_refuses_several_faults :
    parse ⟨7, "\u00a01x : T a, b ,int int,T a"⟩ =
      .error (.malformedField 7 "1x : T a, b ,int int,T a" 1 "b") ∧
    (DefinitionError.malformedField 7 "1x : T a, b ,int int,T a" 1 "b").Shows 7
      "1x : T a, b ,int int,T a" ∧
    Refused ⟨8, "1x : T a,T a"⟩ (.invalid 8 "1x : T a,T a" (.badName "node" "1x")) ∧
    Refused ⟨9, "X: T a,U b,V b,W a"⟩
      (.invalid 9 "X: T a,U b,V b,W a" (.repeatedField "X" "b")) := by
  have hfield : parse ⟨7, "\u00a01x : T a, b ,int int,T a"⟩ =
      .error (.malformedField 7 "1x : T a, b ,int int,T a" 1 "b") := by
    rfl
  have hname : parse ⟨8, "1x : T a,T a"⟩ =
      .error (.invalid 8 "1x : T a,T a" (.badName "node" "1x")) := by
    rfl
  have hrepeated : parse ⟨9, "X: T a,U b,V b,W a"⟩ =
      .error (.invalid 9 "X: T a,U b,V b,W a" (.repeatedField "X" "b")) := by
    rfl
  exact ⟨hfield, (parse_refuses_first_fault _).2.1 _ hfield,
    ((parse_refuses_first_fault _).1 _).1 hname, ((parse_refuses_first_fault _).1 _).1 hrepeated⟩

end Entry

end NodeHeader
