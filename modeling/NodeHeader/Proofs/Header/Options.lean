/-
  What is known of options.

  Settings are made options unless a check fails, and then the first such check is the error
  (`Settings.build_eq_ok_iff`, `Settings.build_eq_error_iff`). Options are settings of which every
  check holds. For each setting the check is taken out of the list and said as a fact about the
  setting.
-/
import NodeHeader.Proofs.Header.Generation

namespace NodeHeader

/-- The texts that the comment shows, in order. -/
def Metadata.texts (m : Metadata) : List String :=
  [m.title, m.copyright, m.fileName, m.description, m.version]

/-- Options with the same settings are the same: there is but one proof that the checks hold. -/
theorem Options.ext_settings {o o' : Options} (h : o.toSettings = o'.toSettings) : o = o' := by
  cases o
  cases o'
  cases h
  rfl

namespace Settings

variable {s : Settings} {o : Options} {check : Check}

theorem build_of_firstFailure (h : s.firstFailure? = some check) :
    s.build = .error check := by
  unfold build
  split
  · next failure hfailure => rw [Option.some.inj (hfailure.symm.trans h)]
  · next hnone => cases hnone.symm.trans h

/-- The error of settings that are not acceptable names the setting and shows the value of the first
check that fails. -/
theorem toOptions_of_firstFailure (h : s.firstFailure? = some check) :
    s.toOptions = .error (.badSetting check.setting check.value) := by
  rw [toOptions, build_of_firstFailure h]
  rfl

/-- Settings of which no check fails are made options as they are. -/
theorem exists_build_of_firstFailure (h : s.firstFailure? = none) :
    ∃ o, s.build = .ok o ∧ o.toSettings = s := by
  unfold build
  split
  · next failure hfailure => cases hfailure.symm.trans h
  · exact ⟨_, rfl, rfl⟩

theorem eq_of_build (h : s.build = .ok o) : o.toSettings = s := by
  unfold build at h
  split at h
  · cases h
  · obtain rfl := Except.ok.inj h
    rfl

theorem build_eq_error_iff : s.build = .error check ↔ s.firstFailure? = some check := by
  cases hfailure : s.firstFailure? with
  | none =>
    obtain ⟨o, ho, -⟩ := exists_build_of_firstFailure hfailure
    rw [ho]
    exact iff_of_false nofun nofun
  | some failure =>
    rw [build_of_firstFailure hfailure, Except.error.injEq, Option.some.injEq]

/-- Exactly the settings of which no check fails are made options, and they are not altered. -/
theorem build_eq_ok_iff : s.build = .ok o ↔ s.firstFailure? = none ∧ o.toSettings = s := by
  constructor
  · intro h
    refine ⟨Option.eq_none_iff_forall_ne_some.2 fun check hcheck => ?_, eq_of_build h⟩
    rw [build_of_firstFailure hcheck] at h
    cases h
  · rintro ⟨hnone, hs⟩
    obtain ⟨o', ho', hs'⟩ := exists_build_of_firstFailure hnone
    rw [ho', Options.ext_settings (hs'.trans hs.symm)]

end Settings

namespace Options

variable (o : Options)

theorem isIdentifier_namespaceName :
    o.namespaceName = "" ∨ Cpp.isIdentifier o.namespaceName = true := by
  have h := o.holds_checks ⟨.namespaceName, o.namespaceName,
    o.namespaceName.isEmpty || Cpp.isIdentifier o.namespaceName⟩ (by simp [Settings.checks])
  simpa using h

theorem isInclude_of_mem {header : String} (h : header ∈ o.includes) :
    isInclude header = true := by
  refine o.holds_checks ⟨.header, header, isInclude header⟩ ?_
  simp only [Settings.checks, List.mem_append, List.mem_cons, List.mem_map]
  exact .inl (.inl (.inr (.inr ⟨header, h, rfl⟩)))

/-- The checks of the comment are those of its five texts, all by the same rule. -/
theorem fitsCommentLine_of_mem {text : String} (h : text ∈ o.metadata.texts) :
    fitsCommentLine text = true := by
  have hvalue : text ∈ o.metadata.checks.map Check.value := h
  obtain ⟨check, hcheck, rfl⟩ := List.mem_map.1 hvalue
  have hholds := o.holds_checks check (by simp [Settings.checks, hcheck])
  simp only [Metadata.checks, List.mem_cons, List.not_mem_nil, or_false] at hcheck
  rcases hcheck with rfl | rfl | rfl | rfl | rfl <;> exact hholds

theorem isTypeName_returnType {v : Visitor} (h : o.visitor = some v) :
    Cpp.isTypeName v.returnType = true :=
  o.holds_checks ⟨.visitorReturn, v.returnType, Cpp.isTypeName v.returnType⟩
    (by simp [Settings.checks, h])

end Options

end NodeHeader
