/-
  The value that the error of settings shows.

  The error is to show the value that was refused, and it does (`Settings.value?_of_hasFlaw`) but
  for one flaw: a file name of blanks alone is shown as an empty one. Whichever value is shown, it
  is refused again with the same error if it is put into settings that are acceptable otherwise
  (`Settings.FirstFlaw.put`). `Settings.toOptions_shows_rejected_value` says so of all settings,
  and of those that a base type and a comment or a command line make.
-/
import NodeHeader.CommandLine.Run
import NodeHeader.CommandLine.Standard
import NodeHeader.Proofs.Header.FirstConflict
import NodeHeader.Proofs.Header.Flaws

namespace NodeHeader

namespace Settings

variable {s s' : Settings} {flaw other : Flaw} {name : SettingName} {value shown : String}

/-! ### Values of settings -/

/-- The value that is held for a setting; of the included headers, the first one that is not
accepted. -/
def value? (s : Settings) : SettingName → Option String
  | .base => some s.base
  | .namespaceName => some s.namespaceName
  | .header => s.includes.find? (!isInclude ·)
  | .title => some s.metadata.title
  | .copyright => some s.metadata.copyright
  | .fileName => some s.metadata.fileName
  | .description => some s.metadata.description
  | .version => some s.metadata.version
  | .visitorReturn => s.visitor.map Visitor.returnType

/-- The change that sets a setting to a value. A header is added to the others. -/
def changeTo (s : Settings) (value : String) : SettingName → Change
  | .base => .base value
  | .namespaceName => .namespaceName value
  | .header => .addInclude value
  | .title => .metadata { s.metadata with title := value }
  | .copyright => .metadata { s.metadata with copyright := value }
  | .fileName => .metadata { s.metadata with fileName := value }
  | .description => .metadata { s.metadata with description := value }
  | .version => .metadata { s.metadata with version := value }
  | .visitorReturn => .visitor { returnType := value }

/-- The settings with a setting set to a value. -/
def put (s : Settings) (name : SettingName) (value : String) : Settings :=
  s.apply (s.changeTo value name)

/-- The file name is not empty, but holds blanks alone and stays on its line. -/
structure HasBlankFileName (s : Settings) : Prop where
  ne_empty : s.metadata.fileName ≠ ""
  blank : ∀ c ∈ s.metadata.fileName.toList, Text.isBlank c = true
  one_line : '\n' ∉ s.metadata.fileName.toList ∧ '\r' ∉ s.metadata.fileName.toList

/-- For each flaw but the one of a blank file name the value is shown that is held. -/
theorem value?_of_hasFlaw (h : s.HasFlaw flaw value) (hflaw : flaw ≠ .blankFileName) :
    s.value? flaw.setting = some value := by
  cases flaw with
  | base =>
    obtain ⟨rfl, -⟩ := h
    rfl
  | namespaceName =>
    obtain ⟨rfl, -⟩ := h
    rfl
  | header => exact shown?_header.symm.trans (shown?_eq_some_iff.2 h)
  | text place =>
    obtain ⟨rfl, -⟩ := h
    cases place <;> rfl
  | blankFileName => exact absurd rfl hflaw
  | visitorReturn =>
    obtain ⟨v, hv, rfl, -⟩ := h
    rw [Flaw.setting, value?, hv, Option.map_some]

/-- A setting has a flaw only because of its own value. -/
theorem HasFlaw.of_put (h : (s.put name value).HasFlaw other shown) (hname : other.setting ≠ name) :
    s.HasFlaw other shown := by
  cases other with
  | text place => cases place <;> cases name <;> first | exact h | exact absurd rfl hname
  | _ => cases name <;> first | exact h | exact absurd rfl hname

/-- A value with which settings have a flaw is a flaw of all others, too. -/
theorem HasFlaw.put (h : s.HasFlaw flaw value) (hs' : s'.Acceptable) :
    (s'.put flaw.setting value).HasFlaw flaw value := by
  cases flaw with
  | base =>
    obtain ⟨rfl, h⟩ := h
    exact ⟨rfl, h⟩
  | namespaceName =>
    obtain ⟨rfl, h⟩ := h
    exact ⟨rfl, h⟩
  | header =>
    obtain ⟨-, -, -, -, h⟩ := h
    exact ⟨s'.includes, [], rfl, hs'.includes, h⟩
  | text place =>
    obtain ⟨rfl, h⟩ := h
    cases place <;> exact ⟨rfl, h⟩
  | blankFileName =>
    obtain ⟨rfl, -⟩ := h
    have hempty : ∀ c ∈ "".toList, Text.isBlank c = true := by simp
    exact ⟨rfl, hempty⟩
  | visitorReturn =>
    obtain ⟨v, -, rfl, h⟩ := h
    exact ⟨v, rfl, rfl, h⟩

/-! ### The value that is shown -/

/-- A blank file name is looked for only if the file name fits the comment. -/
theorem FirstFlaw.not_hasFlaw_fileName (h : s.FirstFlaw .blankFileName value) :
    ¬ s.HasFlaw (.text .fileName) shown := by
  obtain ⟨before, after, horder, hbefore, -⟩ := h
  exact hbefore _ ((Flaw.mem_before_iff horder).2 (by decide)) shown

/-- A blank file name has no other flaw than this one. -/
theorem HasBlankFileName.eq_blankFileName (h : s.HasBlankFileName) (hflaw : s.HasFlaw flaw value)
    (hsetting : flaw.setting = .fileName) : flaw = .blankFileName := by
  cases flaw with
  | blankFileName => rfl
  | text place =>
    cases place with
    | fileName =>
      obtain ⟨-, hbroken | hbroken | hbroken⟩ := hflaw
      · exact absurd hbroken h.one_line.1
      · exact absurd hbroken h.one_line.2
      · -- the star of the end of a comment is no blank
        have hstar : Text.isBlank '*' = true := h.blank '*' (hbroken.subset (by simp))
        revert hstar
        decide
    | _ => cases hsetting
  | _ => cases hsetting

/-- The first flaw shows the value that is held, but for a blank file name. -/
theorem FirstFlaw.value?_eq_some_iff (h : s.FirstFlaw flaw value) :
    s.value? flaw.setting = some value ↔ ¬ (flaw.setting = .fileName ∧ s.HasBlankFileName) := by
  obtain ⟨before, after, horder, hbefore, hflaw⟩ := id h
  by_cases hfile : flaw = .blankFileName
  · subst hfile
    obtain ⟨rfl, hblank⟩ := hflaw
    have hfits : ¬ ('\n' ∈ s.metadata.fileName.toList ∨ '\r' ∈ s.metadata.fileName.toList ∨
        ['*', '/'] <:+: s.metadata.fileName.toList) := fun hbroken =>
      h.not_hasFlaw_fileName ⟨rfl, hbroken⟩
    rw [not_or, not_or] at hfits
    constructor
    · rintro hvalue ⟨-, hne, -, -⟩
      exact hne (Option.some.inj hvalue)
    · intro hnot
      by_contra hvalue
      exact hnot ⟨rfl, fun hempty => hvalue (congrArg some hempty), hblank, hfits.1, hfits.2.1⟩
  · exact iff_of_true (value?_of_hasFlaw hflaw hfile) fun ⟨hsetting, hname⟩ =>
      hfile (hname.eq_blankFileName hflaw hsetting)

/-- The value that is shown is refused again, with the same error. -/
theorem FirstFlaw.put (h : s.FirstFlaw flaw value) (hs' : s'.Acceptable) :
    (s'.put flaw.setting value).FirstFlaw flaw value := by
  obtain ⟨before, after, horder, -, hflaw⟩ := h
  refine ⟨before, after, horder, fun earlier hearlier shown hshown => ?_, hflaw.put hs'⟩
  by_cases hsetting : earlier.setting = flaw.setting
  · -- the file name is judged twice, but an empty one fits the comment
    obtain ⟨rfl, rfl⟩ := Flaw.eq_text_of_setting_eq horder hearlier hsetting
    obtain ⟨rfl, -⟩ := hflaw
    obtain ⟨-, hbroken⟩ := hshown
    have hempty : ¬ ('\n' ∈ "".toList ∨ '\r' ∈ "".toList ∨ ['*', '/'] <:+: "".toList) := by simp
    exact hempty hbroken
  · exact acceptable_iff.1 hs' earlier shown (hshown.of_put hsetting)

/-- What an error tells of the settings that are refused with it: it shows the value that is held
for the setting that it names, unless the file name is blank. A blank one is shown as an empty one.
The value is refused again in all settings that are acceptable otherwise. -/
structure RefusedFor (s : Settings) (name : SettingName) (value : String) : Prop where
  held : s.value? name = some value ↔ ¬ (name = .fileName ∧ s.HasBlankFileName)
  empty : name = .fileName → s.HasBlankFileName → value = ""
  again : ∀ (s' : Settings) (o : Options), s'.toOptions = .ok o →
    (s'.put name value).toOptions = .error (.badSetting name value)

theorem FirstFlaw.refusedFor (h : s.FirstFlaw flaw value) : s.RefusedFor flaw.setting value where
  held := h.value?_eq_some_iff
  empty hsetting hname := by
    obtain ⟨-, -, -, -, hflaw⟩ := h
    obtain rfl := hname.eq_blankFileName hflaw hsetting
    exact hflaw.1
  again s' o hs' :=
    toOptions_eq_error_iff.2 ⟨flaw, value, h.put (toOptions_eq_ok_iff.1 hs').1, rfl⟩

theorem exists_refusedFor {err : GenerationError} (h : s.toOptions = .error err) :
    ∃ name value, err = .badSetting name value ∧ s.RefusedFor name value := by
  obtain ⟨flaw, value, hfirst, rfl⟩ := toOptions_eq_error_iff.1 h
  exact ⟨flaw.setting, value, rfl, hfirst.refusedFor⟩

theorem refusedFor_of_toOptions (h : s.toOptions = .error (.badSetting name value)) :
    s.RefusedFor name value := by
  obtain ⟨_, _, herror, hrefused⟩ := exists_refusedFor h
  obtain ⟨rfl, rfl⟩ := GenerationError.badSetting.inj herror
  exact hrefused

end Settings

/-- A header for a base type and a comment is refused for its settings exactly if these are. -/
theorem Table.result_headerOf_eq_badSetting_iff {t : Table} {base : String} {metadata : Metadata}
    {name : SettingName} {value : String} :
    (t.headerOf base metadata).result = .error (.badSetting name value) ↔
      ({ base, metadata } : Settings).toOptions = .error (.badSetting name value) := by
  rw [headerOf, Traced.result_bind, Traced.ofExcept]
  cases ({ base, metadata } : Settings).toOptions with
  | error err => simp only [Except.bind, Except.error.injEq]
  | ok o =>
    refine iff_of_false (fun h => ?_) (fun h => ?_)
    · obtain ⟨c, hc, -⟩ := check_eq_error_iff.1 (result_header_eq_error_iff.1 h)
      cases hc
    · cases h

/-- The error of settings that are refused shows the value that is held for the setting that it
names, and of several included headers the first that is not accepted; only a file name of blanks
alone is shown as an empty one. What it shows is refused again with the same error in settings that
are acceptable otherwise. It is so for all settings, and so for those of a base type and a comment
and for those of a command line, however it is parsed. -/
theorem Settings.toOptions_shows_rejected_value (s : Settings) (t : Table) (base : String)
    (metadata : Metadata) (P : CommandLine.Parser) (arguments : List Text.Bytes) :
    (∀ err, s.toOptions = .error err →
      ∃ name value, err = .badSetting name value ∧ s.RefusedFor name value) ∧
    (∀ name value, (t.headerOf base metadata).result = .error (.badSetting name value) →
      ({ base, metadata } : Settings).RefusedFor name value) ∧
    (∀ i failure, CommandLine.Invocation.read P arguments = .ok i → i.options = .error failure →
      ∃ name value, failure = ⟨"invalid generator options", .badSetting name value⟩ ∧
        i.settings.RefusedFor name value) ∧
    ∀ name value, (GenerationError.badSetting name value).message =
      "invalid value '" ++ value ++ "' for option '" ++ name.label ++ "'" := by
  refine ⟨fun err h => exists_refusedFor h, fun name value h => ?_, fun i failure _ h => ?_,
    fun _ _ => rfl⟩
  · exact refusedFor_of_toOptions (Table.result_headerOf_eq_badSetting_iff.1 h)
  · obtain ⟨err, herr, rfl⟩ := Except.mapError_eq_error_iff.1 h
    obtain ⟨name, value, rfl, hrefused⟩ := exists_refusedFor herr
    exact ⟨name, value, rfl, hrefused⟩

/-- Of two headers that are not accepted the first is shown, and it is refused again. The blank
file name of a command line is not shown, and neither is one given with a base type. -/
theorem Settings.toOptions_shows_rejected_value_first :
    ∃ (s : Settings) (t : Table) (metadata : Metadata) (i : CommandLine.Invocation),
      s.includes = ["<a>", "<>", "b"] ∧ s.toOptions = .error (.badSetting .header "<>") ∧
      s.value? .header = some "<>" ∧
      ({ base := "Stmt" : Settings }.put .header "<>").toOptions =
        .error (.badSetting .header "<>") ∧
      metadata.fileName = "\u3000" ∧
      (t.headerOf "Expr" metadata).result = .error (.badSetting .fileName "") ∧
      ({ base := "Expr", metadata } : Settings).value? .fileName ≠ some "" ∧
      CommandLine.Invocation.read .standard [Text.encode "-o", Text.encode " "] = .ok i ∧
      i.options = .error ⟨"invalid generator options", .badSetting .fileName ""⟩ ∧
      i.settings.value? .fileName ≠ some "" := by
  let s : Settings := { includes := ["<a>", "<>", "b"], visitor := some { returnType := "" } }
  let metadata : Metadata := { fileName := "\u3000" }
  let i : CommandLine.Invocation :=
    { defs := none
      out := .ofString " "
      stdout := false
      settings := { Builtin.settings with metadata := { fileName := " " } } }
  have hfirst : s.firstFailure? = some ⟨.header, "<>", false⟩ := by decide +kernel
  have hs : s.toOptions = .error (.badSetting .header "<>") := toOptions_of_firstFailure hfirst
  have hblank : ({ base := "Expr", metadata } : Settings).firstFailure? =
      some ⟨.fileName, "", false⟩ := by decide +kernel
  have hheader : (Table.empty.headerOf "Expr" metadata).result =
      .error (.badSetting .fileName "") :=
    Table.result_headerOf_eq_badSetting_iff.2 (toOptions_of_firstFailure hblank)
  have hread : CommandLine.Invocation.read .standard [Text.encode "-o", Text.encode " "] =
      .ok i := by rfl
  have hi : i.settings.firstFailure? = some ⟨.fileName, "", false⟩ := by decide +kernel
  have hoptions : i.options = .error ⟨"invalid generator options", .badSetting .fileName ""⟩ := by
    rw [CommandLine.Invocation.options, toOptions_of_firstFailure hi]
    rfl
  obtain ⟨hsettings, hassembled, hcommand, -⟩ :=
    toOptions_shows_rejected_value s .empty "Expr" metadata .standard
      [Text.encode "-o", Text.encode " "]
  obtain ⟨name, value, herr, hrefused⟩ := hsettings _ hs
  obtain ⟨rfl, rfl⟩ := GenerationError.badSetting.inj herr
  have hmetadata := hassembled _ _ hheader
  obtain ⟨name', value', hfailure, hrefused'⟩ := hcommand i _ hread hoptions
  obtain ⟨rfl, rfl⟩ := GenerationError.badSetting.inj (CommandLine.Failure.mk.inj hfailure).2
  obtain ⟨o, ho⟩ : ∃ o, ({ base := "Stmt" } : Settings).toOptions = .ok o :=
    exists_toOptions_iff.2 (firstFailure?_eq_none_iff.1 (by decide +kernel))
  refine ⟨s, .empty, metadata, i, rfl, hs, hrefused.held.2 nofun, hrefused.again _ o ho, rfl,
    hheader, fun h => hmetadata.held.1 h ⟨rfl, ?_⟩, hread, hoptions,
    fun h => hrefused'.held.1 h ⟨rfl, ?_⟩⟩
  · exact ⟨by decide, List.all_eq_true.1 (by decide), by decide⟩
  · exact ⟨by decide, List.all_eq_true.1 (by decide), by decide⟩

/-- A file name of one blank is refused, but shown as an empty one. -/
theorem Settings.not_shows_blank_fileName : ∃ s : Settings, s.metadata.fileName = " " ∧
    s.toOptions = .error (.badSetting .fileName "") ∧
    ¬ ∀ (s : Settings) name value, s.toOptions = .error (.badSetting name value) →
      s.value? name = some value := by
  let s : Settings := { metadata := { fileName := " " } }
  have hfirst : s.firstFailure? = some ⟨.fileName, "", false⟩ := by decide +kernel
  have hs : s.toOptions = .error (.badSetting .fileName "") := toOptions_of_firstFailure hfirst
  refine ⟨s, rfl, hs, fun h => ?_⟩
  have hvalue : some " " = some "" := h s _ _ hs
  revert hvalue
  decide

end NodeHeader
