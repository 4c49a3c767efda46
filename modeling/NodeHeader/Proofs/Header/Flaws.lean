/-
  What is wrong with settings, and which of it is reported.

  `Settings.HasFlaw` says of each part of settings what can be wrong with it, and which value is
  then shown. Settings may have several flaws; `Settings.FirstFlaw` is the one that comes first in
  `Flaw.inOrder`. Settings without a flaw are made options as they are, and the error of all others
  names their first flaw (`Settings.toOptions_reports_first_flaw`).

  Each flaw has checks of its own, and all checks are those of the flaws in order
  (`Settings.checks_eq`). So what has to be shown of one flaw is that its checks fail exactly if
  the settings have it (`Settings.find?_checksOf_eq_some_iff`).
-/
import NodeHeader.Proofs.Header.Skeleton

namespace NodeHeader

/-! ### Flaws -/

/-- A text that the comment shows. -/
inductive CommentText where
  | title
  | copyright
  | fileName
  | description
  | version
deriving DecidableEq, Repr

/-- The setting that the text is. -/
def CommentText.setting : CommentText → SettingName
  | title => .title
  | copyright => .copyright
  | fileName => .fileName
  | description => .description
  | version => .version

/-- The text of this kind. -/
def Metadata.text (m : Metadata) : CommentText → String
  | .title => m.title
  | .copyright => m.copyright
  | .fileName => m.fileName
  | .description => m.description
  | .version => m.version

/-- What can be wrong with settings. -/
inductive Flaw where
  | base
  | namespaceName
  | header
  /-- A text does not fit on one line of the comment. -/
  | text (place : CommentText)
  | blankFileName
  | visitorReturn
deriving DecidableEq, Repr

namespace Flaw

/-- The setting that has the flaw. -/
def setting : Flaw → SettingName
  | base => .base
  | namespaceName => .namespaceName
  | header => .header
  | text place => place.setting
  | blankFileName => .fileName
  | visitorReturn => .visitorReturn

/-- The flaws in the order in which they are looked for. -/
def inOrder : List Flaw :=
  [base, namespaceName, header, text .title, text .copyright, text .fileName, text .description,
   text .version, blankFileName, visitorReturn]

theorem mem_inOrder (flaw : Flaw) : flaw ∈ inOrder := by
  cases flaw with
  | text place => cases place <;> decide
  | _ => decide

variable {flaw earlier : Flaw} {before after : List Flaw}

theorem mem_before_iff (h : inOrder = before ++ flaw :: after) :
    earlier ∈ before ↔ inOrder.idxOf earlier < inOrder.idxOf flaw := by
  have hnodup : (before ++ flaw :: after).Nodup := h ▸ by decide
  have hflaw : flaw ∉ before := fun hmem =>
    (List.nodup_append.1 hnodup).2.2 flaw hmem flaw List.mem_cons_self rfl
  rw [h, List.idxOf_append_of_notMem hflaw, List.idxOf_cons_self, Nat.add_zero]
  constructor
  · intro hmem
    rw [List.idxOf_append_of_mem hmem]
    exact List.idxOf_lt_length_of_mem hmem
  · intro hlt
    by_contra hmem
    rw [List.idxOf_append_of_notMem hmem] at hlt
    omega

/-- Only the file name is looked at twice. -/
theorem eq_text_of_setting_eq (h : inOrder = before ++ flaw :: after) (hmem : earlier ∈ before)
    (hsetting : earlier.setting = flaw.setting) :
    earlier = .text .fileName ∧ flaw = .blankFileName := by
  have hall : ∀ a ∈ inOrder, ∀ b ∈ inOrder, inOrder.idxOf a < inOrder.idxOf b →
      a.setting = b.setting → a = .text .fileName ∧ b = .blankFileName := by decide
  exact hall earlier earlier.mem_inOrder flaw flaw.mem_inOrder ((mem_before_iff h).1 hmem) hsetting

end Flaw

namespace Settings

/-- Settings have a flaw, for which a value is shown. -/
def HasFlaw (s : Settings) : Flaw → String → Prop
  | .base, value => value = s.base ∧ Cpp.isIdentifier s.base = false
  | .namespaceName, value => value = s.namespaceName ∧
    s.namespaceName ≠ "" ∧ Cpp.isIdentifier s.namespaceName = false
  | .header, value => ∃ before after, s.includes = before ++ value :: after ∧
    (∀ header ∈ before, isInclude header = true) ∧ isInclude value = false
  | .text place, value => value = s.metadata.text place ∧
    ('\n' ∈ (s.metadata.text place).toList ∨ '\r' ∈ (s.metadata.text place).toList ∨
      ['*', '/'] <:+: (s.metadata.text place).toList)
  | .blankFileName, value =>
    value = "" ∧ ∀ c ∈ s.metadata.fileName.toList, Text.isBlank c = true
  | .visitorReturn, value =>
    ∃ v, s.visitor = some v ∧ value = v.returnType ∧ Cpp.isTypeName v.returnType = false

/-- The flaw that settings have and that is looked for before any other one. -/
def FirstFlaw (s : Settings) (flaw : Flaw) (value : String) : Prop :=
  ∃ before after, Flaw.inOrder = before ++ flaw :: after ∧
    (∀ earlier ∈ before, ∀ shown, ¬ s.HasFlaw earlier shown) ∧ s.HasFlaw flaw value

/-- What is accepted of settings. -/
structure Acceptable (s : Settings) : Prop where
  base : Cpp.isIdentifier s.base = true
  namespaceName : s.namespaceName = "" ∨ Cpp.isIdentifier s.namespaceName = true
  includes : ∀ header ∈ s.includes, isInclude header = true
  comment : ∀ place, '\n' ∉ (s.metadata.text place).toList ∧
    '\r' ∉ (s.metadata.text place).toList ∧ ¬ ['*', '/'] <:+: (s.metadata.text place).toList
  fileName : ∃ c ∈ s.metadata.fileName.toList, Text.isBlank c = false
  visitor : ∀ v, s.visitor = some v → Cpp.isTypeName v.returnType = true

variable {s : Settings} {flaw : Flaw} {value : String}

theorem fitsCommentLine_eq_false_iff {text : String} :
    fitsCommentLine text = false ↔
      '\n' ∈ text.toList ∨ '\r' ∈ text.toList ∨ ['*', '/'] <:+: text.toList := by
  rw [← holdsCommentEnd_iff, fitsCommentLine]
  simp only [Bool.and_eq_false_iff, Bool.not_eq_false', List.contains_iff_mem, or_assoc]

/-! ### The checks of a flaw -/

/-- The checks that look for a flaw. -/
def checksOf (s : Settings) : Flaw → List Check
  | .base => [⟨.base, s.base, Cpp.isIdentifier s.base⟩]
  | .namespaceName => [⟨.namespaceName, s.namespaceName,
      s.namespaceName.isEmpty || Cpp.isIdentifier s.namespaceName⟩]
  | .header => s.includes.map fun header => ⟨.header, header, isInclude header⟩
  | .text place =>
    [⟨place.setting, s.metadata.text place, fitsCommentLine (s.metadata.text place)⟩]
  | .blankFileName => [⟨.fileName, "", !isBlankText s.metadata.fileName⟩]
  | .visitorReturn =>
    s.visitor.toList.map fun v => ⟨.visitorReturn, v.returnType, Cpp.isTypeName v.returnType⟩

theorem checks_eq (s : Settings) : s.checks = Flaw.inOrder.flatMap s.checksOf := by
  simp [checks, checksOf, Metadata.checks, Flaw.inOrder, Metadata.text, CommentText.setting]

theorem setting_of_mem_checksOf {check : Check} (h : check ∈ s.checksOf flaw) :
    check.setting = flaw.setting := by
  cases flaw <;> simp only [checksOf, List.mem_singleton, List.mem_map] at h
  case header =>
    obtain ⟨header, -, rfl⟩ := h
    rfl
  case visitorReturn =>
    obtain ⟨v, -, rfl⟩ := h
    rfl
  all_goals
    rw [h]
    rfl

/-- The value that is shown for a flaw: that of the first check that looks for it and fails. -/
def shown? (s : Settings) (flaw : Flaw) : Option String :=
  ((s.checksOf flaw).find? (!·.holds)).map Check.value

theorem value_of_find?_singleton {name : SettingName} {shown : String} {holds : Bool} :
    ([⟨name, shown, holds⟩].find? (!·.holds)).map Check.value = some value ↔
      value = shown ∧ holds = false := by
  cases holds <;> simp [eq_comm]

theorem shown?_header : s.shown? .header = s.includes.find? (!isInclude ·) := by
  rw [shown?, checksOf, List.find?_map, Option.map_map]
  exact Option.map_id' ..

/-- The checks for a flaw fail exactly if settings have it. -/
theorem shown?_eq_some_iff : s.shown? flaw = some value ↔ s.HasFlaw flaw value := by
  cases flaw with
  | base => exact value_of_find?_singleton
  | namespaceName =>
    refine value_of_find?_singleton.trans (and_congr_right fun _ => ?_)
    rw [Bool.or_eq_false_iff, String.isEmpty_eq_false_iff]
  | header =>
    simp only [shown?_header, List.find?_eq_some_iff_append, Bool.not_eq_true', Bool.not_not,
      HasFlaw]
    constructor
    · rintro ⟨hvalue, before, after, hincludes, hbefore⟩
      exact ⟨before, after, hincludes, hbefore, hvalue⟩
    · rintro ⟨before, after, hincludes, hbefore, hvalue⟩
      exact ⟨hvalue, before, after, hincludes, hbefore⟩
  | text place =>
    exact value_of_find?_singleton.trans (and_congr_right fun _ => fitsCommentLine_eq_false_iff)
  | blankFileName =>
    refine value_of_find?_singleton.trans (and_congr_right fun _ => ?_)
    rw [Bool.not_eq_false', isBlankText, Text.isAllBlank, List.all_eq_true]
  | visitorReturn =>
    rw [shown?, checksOf, HasFlaw]
    cases hvisitor : s.visitor with
    | none => simp
    | some v =>
      refine value_of_find?_singleton.trans ?_
      constructor
      · intro h
        exact ⟨v, rfl, h⟩
      · rintro ⟨v', hv, h⟩
        obtain rfl := Option.some.inj hv
        exact h

theorem shown?_eq_none_iff : s.shown? flaw = none ↔ ∀ value, ¬ s.HasFlaw flaw value := by
  simp only [Option.eq_none_iff_forall_ne_some, ne_eq, shown?_eq_some_iff]

/-! ### What is accepted -/

/-- Settings are acceptable exactly if nothing is wrong with them. -/
theorem acceptable_iff : s.Acceptable ↔ ∀ flaw value, ¬ s.HasFlaw flaw value := by
  constructor
  · intro h flaw value hflaw
    cases flaw with
    | base => exact absurd h.base (Bool.eq_false_iff.1 hflaw.2)
    | namespaceName =>
      exact absurd (h.namespaceName.resolve_left hflaw.2.1) (Bool.eq_false_iff.1 hflaw.2.2)
    | header =>
      obtain ⟨before, after, hincludes, -, hflaw⟩ := hflaw
      exact absurd (h.includes value (by simp [hincludes])) (Bool.eq_false_iff.1 hflaw)
    | text place =>
      obtain ⟨hfeed, hreturn, hend⟩ := h.comment place
      exact hflaw.2.elim hfeed (·.elim hreturn hend)
    | blankFileName =>
      obtain ⟨c, hc, hblank⟩ := h.fileName
      exact absurd (hflaw.2 c hc) (Bool.eq_false_iff.1 hblank)
    | visitorReturn =>
      obtain ⟨v, hv, -, hflaw⟩ := hflaw
      exact absurd (h.visitor v hv) (Bool.eq_false_iff.1 hflaw)
  · intro h
    refine ⟨?_, ?_, fun header hmem => ?_, fun place => ?_, ?_, fun v hv => ?_⟩
    · exact Bool.of_not_eq_false fun hflaw => h .base _ ⟨rfl, hflaw⟩
    · by_contra hnot
      rw [not_or, Bool.not_eq_true] at hnot
      exact h .namespaceName _ ⟨rfl, hnot⟩
    · have hnone := shown?_header.symm.trans (shown?_eq_none_iff.2 (h .header))
      simpa using List.find?_eq_none.1 hnone header hmem
    · have hfits := mt (And.intro rfl) (h (.text place) _)
      rwa [not_or, not_or] at hfits
    · by_contra hnot
      refine h .blankFileName "" ⟨rfl, fun c hc => Bool.of_not_eq_false fun hblank => ?_⟩
      exact hnot ⟨c, hc, hblank⟩
    · exact Bool.of_not_eq_false fun hflaw => h .visitorReturn _ ⟨v, hv, rfl, hflaw⟩

/-! ### What is reported -/

theorem firstFailure?_eq_findSome? (s : Settings) :
    s.firstFailure? = Flaw.inOrder.findSome? fun flaw => (s.checksOf flaw).find? (!·.holds) := by
  rw [firstFailure?, checks_eq, List.find?_flatMap]

theorem firstFailure?_eq_none_iff : s.firstFailure? = none ↔ s.Acceptable := by
  rw [firstFailure?_eq_findSome?, List.findSome?_eq_none_iff, acceptable_iff]
  constructor
  · intro h flaw
    rw [← shown?_eq_none_iff, shown?, h flaw flaw.mem_inOrder, Option.map_none]
  · intro h flaw _
    exact Option.map_eq_none_iff.1 (shown?_eq_none_iff.2 (h flaw))

theorem toOptions_eq_ok_iff {o : Options} :
    s.toOptions = .ok o ↔ s.Acceptable ∧ o.toSettings = s := by
  rw [toOptions, Except.mapError_eq_ok_iff, build_eq_ok_iff, firstFailure?_eq_none_iff]

theorem exists_toOptions_iff : (∃ o, s.toOptions = .ok o) ↔ s.Acceptable := by
  constructor
  · rintro ⟨o, h⟩
    exact (toOptions_eq_ok_iff.1 h).1
  · intro h
    obtain ⟨o, -, ho⟩ := exists_build_of_firstFailure (firstFailure?_eq_none_iff.2 h)
    exact ⟨o, toOptions_eq_ok_iff.2 ⟨h, ho⟩⟩

/-- The error of settings names their first flaw. -/
theorem toOptions_eq_error_iff {err : GenerationError} :
    s.toOptions = .error err ↔
      ∃ flaw value, s.FirstFlaw flaw value ∧ err = .badSetting flaw.setting value := by
  simp only [toOptions, Except.mapError_eq_error_iff, build_eq_error_iff,
    firstFailure?_eq_findSome?, List.findSome?_eq_some_iff]
  constructor
  · rintro ⟨check, ⟨before, flaw, after, horder, hcheck, hbefore⟩, rfl⟩
    refine ⟨flaw, check.value, ⟨before, after, horder, fun earlier hearlier => ?_, ?_⟩, ?_⟩
    · rw [← shown?_eq_none_iff, shown?, hbefore earlier hearlier, Option.map_none]
    · rw [← shown?_eq_some_iff, shown?, hcheck, Option.map_some]
    · rw [setting_of_mem_checksOf (List.mem_of_find?_eq_some hcheck)]
  · rintro ⟨flaw, value, ⟨before, after, horder, hbefore, hflaw⟩, rfl⟩
    obtain ⟨check, hcheck, rfl⟩ := Option.map_eq_some_iff.1 (shown?_eq_some_iff.2 hflaw)
    refine ⟨check, ⟨before, flaw, after, horder, hcheck, fun earlier hearlier => ?_⟩, ?_⟩
    · exact Option.map_eq_none_iff.1 (shown?_eq_none_iff.2 (hbefore earlier hearlier))
    · rw [setting_of_mem_checksOf (List.mem_of_find?_eq_some hcheck)]

/-- Settings are made options exactly if the base type is an identifier, the namespace is one or
empty, the included headers are well delimited, no text of the comment holds a line break or the
end of a comment, the file name is not blank, and what the visitor returns is a type. The options
then are these settings. If something is wrong, the error names the first flaw in order, and of
several headers that are not well delimited it shows the first. -/
theorem toOptions_reports_first_flaw (s : Settings) :
    ((∃ o, s.toOptions = .ok o) ↔ s.Acceptable) ∧
    (∀ o, s.toOptions = .ok o ↔ s.Acceptable ∧ o.toSettings = s) ∧
    (∀ err, s.toOptions = .error err ↔
      ∃ flaw value, s.FirstFlaw flaw value ∧ err = .badSetting flaw.setting value) ∧
    Flaw.inOrder.map (·.setting.label) = ["base", "namespace", "include", "title", "copyright",
      "file_name", "description", "version", "file_name", "visitor_return"] :=
  ⟨exists_toOptions_iff, fun _ => toOptions_eq_ok_iff, fun _ => toOptions_eq_error_iff, rfl⟩

/-- A carriage return is blank, but as a file name it is refused, and shown, for its line break. -/
example : ({ metadata := { fileName := "\r" } } : Settings).firstFailure? =
    some ⟨.fileName, "\r", false⟩ := by
  decide

end Settings

end NodeHeader
