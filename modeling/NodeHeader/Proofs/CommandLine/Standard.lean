/-
  The standard parser keeps the rules.

  What an argument is is known from its dashes, its name and its first equals sign: for each way of
  writing an option it is said what `Argument.ofBytes` makes of it, and what is written in no such
  way is unknown or plain (`Argument.ofBytes_of_not_isDeclared`). A choice is made exactly if it
  fits those before it (`Standard.choose_of_fits`, `Standard.fails_choose`). All rules follow
  (`Parser.standard_lawful`).
-/
import NodeHeader.CommandLine.Standard
import NodeHeader.Proofs.Text.Words
import Mathlib.Data.List.TakeWhile

namespace NodeHeader.CommandLine

open NodeHeader.Text (Bytes)

/-! ### Names -/

theorem lookup_names_eq_some_iff {name : String} {named : Named} :
    List.lookup name names = some named ↔ name = named.name := by
  constructor
  · intro h
    obtain ⟨before, after, hsplit, -⟩ := List.lookup_eq_some_iff.1 h
    have hmem : (name, named) ∈ names := by
      rw [hsplit]
      exact List.mem_append_right _ List.mem_cons_self
    have hnames : ∀ entry ∈ names, entry.1 = entry.2.name := by decide
    exact hnames _ hmem
  · rintro rfl
    cases named with
    | help => rfl
    | flag f => cases f <;> rfl
    | valued v => cases v <;> rfl

/-- No equals sign stands in a name. -/
theorem equalsSign_not_mem (named : Named) : equalsSign ∉ Text.encode named.name := by
  cases named with
  | help => decide
  | flag f => cases f <;> decide
  | valued v => cases v <;> decide

theorem encode_name_ne_nil (named : Named) : Text.encode named.name ≠ [] := by
  cases named with
  | help => decide
  | flag f => cases f <;> decide
  | valued v => cases v <;> decide

/-- There is one letter for an option with a value. -/
theorem Valued.letter?_eq_some_iff {v : Valued} {letter : UInt8} :
    v.letter? = some letter ↔ v = .out ∧ letter = 0x6F := by
  cases v <;> simp [letter?, eq_comm]

namespace Argument

/-! ### After two dashes -/

/-- The name before the first equals sign, if it is one. -/
def longName? (text : Bytes) : Option Named :=
  (Text.decode? (text.takeWhile (· ≠ equalsSign))).bind fun name => List.lookup name names

theorem longName?_eq_some_iff {text : Bytes} {named : Named} :
    longName? text = some named ↔ text.takeWhile (· ≠ equalsSign) = Text.encode named.name := by
  rw [longName?, Option.bind_eq_some_iff]
  constructor
  · rintro ⟨name, hname, hlookup⟩
    rw [← lookup_names_eq_some_iff.1 hlookup]
    exact Text.decode?_eq_some_iff.1 hname
  · intro h
    exact ⟨named.name, Text.decode?_eq_some_iff.2 h, lookup_names_eq_some_iff.2 rfl⟩

/-- What a name is by itself. -/
def ofNamed : Named → Argument
  | .help => .help
  | .flag f => .flag f
  | .valued v => .valued v

/-- What it is with a value attached. -/
def ofNamedWith (value : Bytes) : Named → Argument
  | .help => .overloaded
  | .flag _ => .overloaded
  | .valued v => .attached v value

theorem ofLong_name (named : Named) : ofLong (Text.encode named.name) = ofNamed named := by
  have hall : ∀ b ∈ Text.encode named.name, decide (b ≠ equalsSign) = true := fun b hb =>
    decide_eq_true fun heq => equalsSign_not_mem named (heq ▸ hb)
  have hname : longName? (Text.encode named.name) = some named :=
    longName?_eq_some_iff.2 (List.takeWhile_eq_self_iff.2 hall)
  have hrest : (Text.encode named.name).dropWhile (· ≠ equalsSign) = [] :=
    List.dropWhile_eq_nil_iff.2 hall
  unfold longName? at hname
  unfold ofLong
  simp only [hname, hrest]
  cases named <;> rfl

theorem ofLong_attached (named : Named) (value : Bytes) :
    ofLong (Text.encode named.name ++ equalsSign :: value) = ofNamedWith value named := by
  have hmem := equalsSign_not_mem named
  have hname : longName? (Text.encode named.name ++ equalsSign :: value) = some named :=
    longName?_eq_some_iff.2 (Text.takeWhile_ne_append hmem value)
  have hrest := Text.dropWhile_ne_append hmem value
  unfold longName? at hname
  unfold ofLong
  simp only [hname, hrest]
  cases named <;> rfl

/-- After two dashes stands a name, alone or with a value, or what is there is not known. -/
theorem ofLong_cases (text : Bytes) :
    ofLong text = .unknown ∨ (∃ named : Named, text = Text.encode named.name) ∨
      ∃ (named : Named) (value : Bytes), text = Text.encode named.name ++ equalsSign :: value := by
  cases hname : longName? text with
  | none =>
    unfold longName? at hname
    refine .inl ?_
    unfold ofLong
    simp only [hname]
  | some named =>
    have htake := longName?_eq_some_iff.1 hname
    have htext : text.takeWhile (· ≠ equalsSign) ++ text.dropWhile (· ≠ equalsSign) = text :=
      List.takeWhile_append_dropWhile
    cases hrest : text.dropWhile (· ≠ equalsSign) with
    | nil =>
      rw [htake, hrest, List.append_nil] at htext
      exact .inr (.inl ⟨named, htext.symm⟩)
    | cons b value =>
      have hb : b = equalsSign := by
        have hnot := List.head?_dropWhile_not (· ≠ equalsSign) text
        rw [hrest] at hnot
        simpa using hnot
      rw [htake, hrest, hb] at htext
      exact .inr (.inr ⟨named, value, htext.symm⟩)

/-! ### Whole arguments -/

theorem ofBytes_dashes {text : Bytes} (h : text ≠ []) :
    ofBytes (dash :: dash :: text) = ofLong text := by
  have hempty : ¬ text.isEmpty = true := by simpa using h
  rw [ofBytes, if_pos rfl, if_pos rfl, if_neg hempty]

theorem ofBytes_long (named : Named) : ofBytes (long named.name) = ofNamed named :=
  (ofBytes_dashes (encode_name_ne_nil named)).trans (ofLong_name named)

theorem ofBytes_long_attached (named : Named) (value : Bytes) :
    ofBytes (long named.name ++ equalsSign :: value) = ofNamedWith value named :=
  (ofBytes_dashes (by simp)).trans (ofLong_attached named value)

theorem ofBytes_letter {v : Valued} {letter : UInt8} (h : v.letter? = some letter) :
    ofBytes [dash, letter] = .valued v := by
  obtain ⟨rfl, rfl⟩ := Valued.letter?_eq_some_iff.1 h
  rfl

theorem ofBytes_letter_equals {v : Valued} {letter : UInt8} (h : v.letter? = some letter)
    (value : Bytes) : ofBytes (dash :: letter :: equalsSign :: value) = .attached v value := by
  obtain ⟨rfl, rfl⟩ := Valued.letter?_eq_some_iff.1 h
  rfl

theorem ofBytes_letter_attached {v : Valued} {letter first : UInt8} (h : v.letter? = some letter)
    (hfirst : first ≠ equalsSign) (others : Bytes) :
    ofBytes (dash :: letter :: first :: others) = .attached v (first :: others) := by
  obtain ⟨rfl, rfl⟩ := Valued.letter?_eq_some_iff.1 h
  exact if_neg hfirst

/-- What starts with two dashes is not plain. -/
theorem ofLong_ne_plain (text : Bytes) : ofLong text ≠ .plain := by
  rcases ofLong_cases text with h | ⟨named, rfl⟩ | ⟨named, value, rfl⟩
  · rw [h]
    simp
  · rw [ofLong_name]
    cases named <;> simp [ofNamed]
  · rw [ofLong_attached]
    cases named <;> simp [ofNamedWith]

theorem ofShort_ne_plain (letter : UInt8) (rest : Bytes) : ofShort letter rest ≠ .plain := by
  unfold ofShort
  split
  · simp
  split
  · cases rest with
    | nil => simp
    | cons b value => by_cases hb : b = equalsSign <;> simp [hb]
  · simp

/-- Plain are the arguments that may be values. -/
theorem ofBytes_eq_plain_iff {argument : Bytes} : ofBytes argument = .plain ↔ IsValue argument := by
  match argument with
  | [] => simp [ofBytes, IsValue]
  | [b] => simp [ofBytes, IsValue, em']
  | b :: c :: rest =>
    have hnot : IsValue (b :: c :: rest) ↔ b ≠ dash := by simp [IsValue]
    rw [hnot, ofBytes]
    by_cases hb : b = dash
    · refine iff_of_false ?_ (by simp [hb])
      rw [if_pos hb]
      split
      · split
        · simp
        · exact ofLong_ne_plain rest
      · exact ofShort_ne_plain c rest
    · simp [hb]

/-- What is not written like anything that has a name is unknown or plain. -/
theorem ofBytes_of_not_isDeclared {argument : Bytes} (h : ¬ IsDeclared argument) :
    ofBytes argument = .unknown ∨ ofBytes argument = .plain := by
  match argument with
  | [] | [_] => exact .inr rfl
  | b :: c :: rest =>
    by_cases hb : b = dash
    · subst hb
      refine .inl ?_
      by_cases hc : c = dash
      · subst hc
        by_cases hrest : rest = []
        · subst hrest
          exact absurd .mark h
        · rw [ofBytes_dashes hrest]
          rcases ofLong_cases rest with hunknown | ⟨named, rfl⟩ | ⟨named, value, rfl⟩
          · exact hunknown
          · exact absurd (.long named) h
          · exact absurd (.longWithValue named value) h
      · have hhelp : Named.help.letter? ≠ some c := fun hletter => h (.short hletter rest)
        have hout : Valued.out.letter? ≠ some c := fun hletter =>
          have hnamed : (Named.valued .out).letter? = some c := hletter
          h (.short hnamed rest)
        rw [ofBytes, if_pos rfl, if_neg hc]
        unfold ofShort
        rw [if_neg hhelp, if_neg hout]
    · exact .inr (by rw [ofBytes, if_neg hb])

end Argument

namespace Parser

/-! ### Choices -/

namespace Standard

variable {cs : List Choice} {c : Choice}

/-- A choice that fits is made. -/
theorem choose_of_fits (h : Fits cs c) : choose cs c = .ok (cs ++ [c]) := by
  cases c with
  | flag f =>
    have hnot : Choice.flag f ∉ cs := h
    rw [choose, if_neg hnot]
  | valued v value =>
    obtain ⟨honce, haccepts⟩ := h
    have hfree : ¬ (v.isRepeatable = false ∧ values v cs ≠ []) := fun ⟨hv, hne⟩ => hne (honce hv)
    unfold Valued.Accepts at haccepts
    rw [choose, if_neg hfree]
    cases hkind : v.kind with
    | path =>
      rw [hkind] at haccepts
      simpa using haccepts
    | text =>
      rw [hkind] at haccepts
      obtain ⟨text, rfl⟩ := haccepts
      simp [Text.decode?_encode]

/-- A choice that does not fit is in error. -/
theorem fails_choose (h : ¬ Fits cs c) : Fails (choose cs c) := by
  cases c with
  | flag f =>
    have hmem : Choice.flag f ∈ cs := not_not.1 h
    rw [choose, if_pos hmem]
    exact ⟨_, by simp, rfl⟩
  | valued v value =>
    rw [choose]
    split
    · exact ⟨_, by simp, rfl⟩
    · next hfree =>
      have honce : v.isRepeatable = false → values v cs = [] := fun hv =>
        by_contra fun hne => hfree ⟨hv, hne⟩
      have hnot : ¬ v.Accepts value := fun haccepts => h ⟨honce, haccepts⟩
      unfold Valued.Accepts at hnot
      cases hkind : v.kind with
      | path =>
        rw [hkind] at hnot
        obtain rfl : value = [] := not_not.1 hnot
        exact ⟨_, by simp, rfl⟩
      | text =>
        rw [hkind] at hnot
        have hnone : Text.decode? value = none := Option.eq_none_iff_forall_ne_some.2
          fun text htext => hnot ⟨text, Text.decode?_eq_some_iff.1 htext⟩
        simp only [hnone, Option.isNone_none, if_true]
        exact ⟨_, by simp, rfl⟩

theorem rejection?_ne_help (arguments : List Bytes) : rejection? arguments ≠ some .help := by
  unfold rejection?
  split
  · simp
  · split <;> simp

/-- What is in error for its own sake or for that of the next argument is no help. -/
theorem fails_rejection {α : Type} {usage : Usage} (h : usage ≠ .help) (arguments : List Bytes) :
    Fails (.error ((rejection? arguments).getD usage) : Except Usage α) := by
  refine ⟨_, ?_, rfl⟩
  cases hr : rejection? arguments with
  | none => exact h
  | some other =>
    rintro rfl
    exact rejection?_ne_help arguments hr

/-! ### Arguments that make a choice -/

/-- One argument makes a choice. -/
theorem readsAs_of_takeIn {argument : Bytes}
    (h : ∀ cs rest, takeIn cs (argument :: rest) = choose cs c >>= fun cs' => takeIn cs' rest) :
    standard.ReadsAs [argument] c := by
  refine fun cs rest => ⟨fun hfits => ?_, fun hnot => ?_⟩
  · refine (h cs rest).trans ?_
    rw [choose_of_fits hfits]
    rfl
  · obtain ⟨usage, hne, herror⟩ := fails_choose hnot
    refine ⟨usage, hne, (h cs rest).trans ?_⟩
    rw [herror]
    rfl

theorem readsAs_attached {argument value : Bytes} {v : Valued}
    (h : Argument.ofBytes argument = .attached v value) :
    standard.ReadsAs [argument] (.valued v value) :=
  readsAs_of_takeIn fun cs rest => by rw [takeIn, h]

/-- An option and its value make a choice. -/
theorem readsAs_separate {argument value : Bytes} {v : Valued}
    (h : Argument.ofBytes argument = .valued v) (hvalue : IsValue value) :
    standard.ReadsAs [argument, value] (.valued v value) := by
  have hplain : Argument.ofBytes value = .plain := Argument.ofBytes_eq_plain_iff.2 hvalue
  have htake (cs : List Choice) (rest : List Bytes) : takeIn cs (argument :: value :: rest) =
      (choose cs (.valued v value)).mapError (fun usage => (rejection? rest).getD usage) >>=
        fun cs' => takeIn cs' rest := by
    rw [takeIn, h]
    simp only [hplain, if_true]
  refine fun cs rest => ⟨fun hfits => ?_, fun hnot => ?_⟩
  · refine (htake cs rest).trans ?_
    rw [choose_of_fits hfits]
    rfl
  · obtain ⟨usage, hne, herror⟩ := fails_choose hnot
    obtain ⟨usage', hne', herror'⟩ := fails_rejection (α := List Choice) hne rest
    refine ⟨usage', hne', (htake cs rest).trans ?_⟩
    rw [herror, ← herror']
    rfl

/-- The forms of an option whose value is the next argument. -/
theorem ofBytes_eq_valued {v : Valued} {argument : Bytes}
    (h : argument = long v.name ∨ ∃ letter, v.letter? = some letter ∧ argument = [dash, letter]) :
    Argument.ofBytes argument = .valued v := by
  rcases h with rfl | ⟨letter, hletter, rfl⟩
  · exact Argument.ofBytes_long (.valued v)
  · exact Argument.ofBytes_letter hletter

theorem takeIn_overloaded {argument : Bytes} (h : Argument.ofBytes argument = .overloaded)
    (cs : List Choice) (rest : List Bytes) : Fails (takeIn cs (argument :: rest)) := by
  rw [takeIn, h]
  exact ⟨_, by simp, rfl⟩

theorem lacksFlag_eq_true_iff :
    lacksFlag cs c = true ↔
      ∃ v value f, c = .valued v value ∧ v.requires? = some f ∧ Choice.flag f ∉ cs := by
  cases c with
  | flag f => simp [lacksFlag]
  | valued v value => simp [lacksFlag, Option.any_eq_true]

/-- Choices are found in order exactly if none lacks the flag that it requires. -/
theorem finish_eq_ok_iff {found : Matches} :
    finish cs = .ok found ↔
      (∀ v value f, Choice.valued v value ∈ cs → v.requires? = some f → Choice.flag f ∈ cs) ∧
        ⟨fun f => Choice.flag f ∈ cs, valuesOrDefault cs⟩ = found := by
  have hlacks : cs.any (lacksFlag cs) = true ↔ ¬ ∀ v value f, Choice.valued v value ∈ cs →
      v.requires? = some f → Choice.flag f ∈ cs := by
    simp only [List.any_eq_true, lacksFlag_eq_true_iff, not_forall]
    constructor
    · rintro ⟨_, hmem, v, value, f, rfl, hrequires, hnot⟩
      exact ⟨v, value, f, hmem, hrequires, hnot⟩
    · rintro ⟨v, value, f, hmem, hrequires, hnot⟩
      exact ⟨_, hmem, v, value, f, rfl, hrequires, hnot⟩
  unfold finish
  split
  · next h => exact iff_of_false (by simp) fun hall => hlacks.1 h hall.1
  · next h => rw [Except.ok.injEq, and_iff_right (not_not.1 (mt hlacks.2 h))]

end Standard

/-! ### The rules -/

theorem standard_lawful : standard.Lawful where
  takeIn_nil _ := rfl
  takeIn_mark _ := rfl
  fails_after_mark _ _ _ := ⟨.unknownArgument, by simp, rfl⟩
  reads_flag f := Standard.readsAs_of_takeIn fun cs rest => by
    have hflag : Argument.ofBytes (long f.name) = .flag f := Argument.ofBytes_long (.flag f)
    rw [Standard.takeIn, hflag]
  reads_attached v value :=
    Standard.readsAs_attached (Argument.ofBytes_long_attached (.valued v) value)
  reads_separate v _ hvalue := Standard.readsAs_separate (Argument.ofBytes_long (.valued v)) hvalue
  reads_short_separate hletter hvalue :=
    Standard.readsAs_separate (Argument.ofBytes_letter hletter) hvalue
  reads_short_equals value hletter :=
    Standard.readsAs_attached (Argument.ofBytes_letter_equals hletter value)
  reads_short_attached others hletter hfirst :=
    Standard.readsAs_attached (Argument.ofBytes_letter_attached hletter hfirst others)
  fails_without_value cs argument h := by
    refine ⟨.invalidValue, by simp, ?_⟩
    show Standard.takeIn cs [argument] = _
    rw [Standard.takeIn, Standard.ofBytes_eq_valued h]
  fails_before_option cs argument next rest h hnext := by
    have hplain : Argument.ofBytes next ≠ .plain := mt Argument.ofBytes_eq_plain_iff.1 hnext
    have htake : Standard.takeIn cs (argument :: next :: rest) =
        .error ((Standard.rejection? (next :: rest)).getD .invalidValue) := by
      rw [Standard.takeIn, Standard.ofBytes_eq_valued h]
      simp only [hplain, if_false]
    have hinvalid : Usage.invalidValue ≠ .help := by simp
    obtain ⟨usage, hne, herror⟩ :=
      Standard.fails_rejection (α := List Choice) hinvalid (next :: rest)
    exact ⟨usage, hne, htake.trans herror⟩
  fails_flag_with_value f cs value rest :=
    Standard.takeIn_overloaded (Argument.ofBytes_long_attached (.flag f) value) cs rest
  help cs rest := by
    show Standard.takeIn cs (long Named.help.name :: rest) = _
    rw [Standard.takeIn, Argument.ofBytes_long .help]
    rfl
  help_short cs letters rest hletter := by
    obtain rfl : (0x68 : UInt8) = _ := Option.some.inj hletter
    rfl
  fails_help_with_value cs value rest :=
    Standard.takeIn_overloaded (Argument.ofBytes_long_attached .help value) cs rest
  fails_undeclared cs argument rest h := by
    refine ⟨.unknownArgument, by simp, ?_⟩
    show Standard.takeIn cs (argument :: rest) = _
    rcases Argument.ofBytes_of_not_isDeclared h with harg | harg <;> rw [Standard.takeIn, harg]
  fails_required hmem hrequires hnot := by
    refine ⟨.missingRequiredArgument, by simp, if_pos (List.any_eq_true.2 ⟨_, hmem, ?_⟩)⟩
    exact Standard.lacksFlag_eq_true_iff.2 ⟨_, _, _, rfl, hrequires, hnot⟩
  exists_finish h := ⟨_, Standard.finish_eq_ok_iff.2 ⟨h, rfl⟩⟩
  flag_iff f h := by
    obtain ⟨-, rfl⟩ := Standard.finish_eq_ok_iff.1 h
    exact decide_eq_true_iff
  values_of_given h hne := by
    obtain ⟨-, rfl⟩ := Standard.finish_eq_ok_iff.1 h
    exact if_neg hne
  values_of_default h hnil := by
    obtain ⟨-, rfl⟩ := Standard.finish_eq_ok_iff.1 h
    exact if_pos hnil
  exitCode_help := rfl
  exitCode_error {usage} h := by
    cases usage with
    | help => exact absurd rfl h
    | _ => rfl
  printed_error _ := rfl

end Parser

end NodeHeader.CommandLine
