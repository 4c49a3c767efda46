/-
  How choices are spelled on the command line.

  A command line makes choices: flags that are raised and options that are given values. A choice
  can be spelled in several ways (`Choice.Spells`), and the choices of a command line are spelled
  one after another, with a mark that ends the options at most behind the last one (`Spelled`).

  A parser that keeps the rules takes in the arguments that spell choices which fit one after
  another, and no others (`Parser.Lawful.takeIn_eq_ok_iff`). Together with what choices settle this
  says which command lines are accepted and what they ask for (`read_accepts_spelled_choices`).
-/
import NodeHeader.Proofs.CommandLine.Choices
import NodeHeader.Proofs.CommandLine.Standard

namespace NodeHeader.CommandLine

open NodeHeader.Text (Bytes)
open NodeHeader.CommandLine.Parser (Fails Fits ReadsAs)

/-- The arguments that spell a choice. -/
inductive Choice.Spells : Choice → List Bytes → Prop
  /-- `--name` -/
  | flag (f : Flag) : Spells (.flag f) [long f.name]
  /-- `--name=value` -/
  | attached (v : Valued) (value : Bytes) :
    Spells (.valued v value) [long v.name ++ equalsSign :: value]
  /-- `--name value` -/
  | separate (v : Valued) {value : Bytes} (h : IsValue value) :
    Spells (.valued v value) [long v.name, value]
  /-- `-o value` -/
  | shortSeparate {value : Bytes} (h : IsValue value) :
    Spells (.valued .out value) [Text.encode "-o", value]
  /-- `-o=value` -/
  | shortEquals (value : Bytes) : Spells (.valued .out value) [Text.encode "-o=" ++ value]
  /-- `-ovalue` -/
  | shortAttached {first : UInt8} (others : Bytes) (h : first ≠ equalsSign) :
    Spells (.valued .out (first :: others)) [Text.encode "-o" ++ first :: others]

/-- The arguments spell the choices one after another. The mark that ends the options may stand
behind the last of them. -/
inductive Spelled : List Choice → List Bytes → Prop
  | nil : Spelled [] []
  | marked : Spelled [] [mark]
  | cons {c : Choice} {part : List Bytes} {cs : List Choice} {rest : List Bytes}
    (h : c.Spells part) (hrest : Spelled cs rest) : Spelled (c :: cs) (part ++ rest)

/-! ### Taking in what is spelled -/

theorem encode_short : Text.encode "-o" = [dash, 0x6F] := rfl

theorem encode_short_equals : Text.encode "-o=" = [dash, 0x6F, equalsSign] := rfl

namespace Parser.Lawful

variable {P : Parser} {cs cs' more : List Choice} {c : Choice} {part rest arguments : List Bytes}

/-- Each way to spell a choice is a rule. -/
theorem readsAs (hP : P.Lawful) (h : c.Spells part) : P.ReadsAs part c := by
  cases h with
  | flag f => exact hP.reads_flag f
  | attached v value => exact hP.reads_attached v value
  | separate v h => exact hP.reads_separate v h
  | shortSeparate h => exact encode_short ▸ hP.reads_short_separate rfl h
  | shortEquals value => exact encode_short_equals ▸ hP.reads_short_equals value rfl
  | shortAttached others h => exact encode_short ▸ hP.reads_short_attached others rfl h

/-- What spells choices is taken in exactly if these fit one after another. -/
theorem takeIn_eq_ok_iff_of_spelled (hP : P.Lawful) (h : Spelled more arguments)
    (hcs : Consistent cs) :
    P.takeIn cs arguments = .ok cs' ↔ cs' = cs ++ more ∧ Consistent cs' := by
  induction h generalizing cs with
  | nil =>
    rw [hP.takeIn_nil, List.append_nil, Except.ok.injEq]
    exact ⟨fun heq => ⟨heq.symm, heq ▸ hcs⟩, fun heq => heq.1.symm⟩
  | marked =>
    rw [hP.takeIn_mark, List.append_nil, Except.ok.injEq]
    exact ⟨fun heq => ⟨heq.symm, heq ▸ hcs⟩, fun heq => heq.1.symm⟩
  | @cons c part more rest hspells hrest ih =>
    have hall : cs ++ c :: more = (cs ++ [c]) ++ more := List.append_cons ..
    obtain ⟨hfit, hnot⟩ := hP.readsAs hspells cs rest
    rw [hall]
    by_cases hfits : Fits cs c
    · rw [hfit hfits]
      exact ih (consistent_concat_iff.2 ⟨hcs, hfits⟩)
    · refine iff_of_false (fun hok => ?_) (fun ⟨heq, hcs'⟩ => ?_)
      · obtain ⟨usage, -, herror⟩ := hnot hfits
        cases herror.symm.trans hok
      · rw [heq] at hcs'
        exact hfits (consistent_concat_iff.1 hcs'.of_append).2

/-- Arguments are taken in behind choices, the choices that they make being added. -/
def TakesIn (cs : List Choice) (arguments : List Bytes) (cs' : List Choice) : Prop :=
  ∃ more, Spelled more arguments ∧ cs' = cs ++ more ∧ Consistent cs'

/-- What fails is not taken in. -/
theorem takesIn_of_fails {x : Except Usage (List Choice)} (h : Fails x) (hok : x = .ok cs') :
    TakesIn cs arguments cs' := by
  obtain ⟨usage, -, herror⟩ := h
  cases herror.symm.trans hok

/-- If arguments that spell a choice are taken in, so are those behind them. -/
theorem takesIn_of_spells (hP : P.Lawful) (hcs : Consistent cs) (hspells : c.Spells part)
    (ih : ∀ cs, Consistent cs → P.takeIn cs rest = .ok cs' → TakesIn cs rest cs')
    (hok : P.takeIn cs (part ++ rest) = .ok cs') : TakesIn cs (part ++ rest) cs' := by
  obtain ⟨hfit, hnot⟩ := hP.readsAs hspells cs rest
  by_cases hfits : Fits cs c
  · rw [hfit hfits] at hok
    obtain ⟨more, hmore, rfl, hall⟩ := ih _ (consistent_concat_iff.2 ⟨hcs, hfits⟩) hok
    exact ⟨c :: more, .cons hspells hmore, List.append_assoc .., hall⟩
  · exact takesIn_of_fails (hnot hfits) hok

/-- What is taken in spells choices that fit one after another. -/
theorem takesIn_of_takeIn (hP : P.Lawful) (hcs : Consistent cs)
    (hok : P.takeIn cs arguments = .ok cs') : TakesIn cs arguments cs' := by
  -- on the number of arguments, since a choice takes one of them or two
  induction hlength : arguments.length using Nat.strong_induction_on generalizing cs arguments with
  | _ N ih =>
  subst hlength
  match arguments with
  | [] =>
    rw [hP.takeIn_nil] at hok
    obtain rfl := Except.ok.inj hok
    exact ⟨[], .nil, (List.append_nil _).symm, hcs⟩
  | argument :: rest =>
    have behind {rest' : List Bytes} (hless : rest'.length < (argument :: rest).length) :
        ∀ cs, Consistent cs → P.takeIn cs rest' = .ok cs' → TakesIn cs rest' cs' :=
      fun cs hcs hok => ih _ hless hcs hok rfl
    have single {c : Choice} (hspells : c.Spells [argument]) :
        TakesIn cs ([argument] ++ rest) cs' :=
      takesIn_of_spells hP hcs hspells (behind (by simp)) hok
    have waiting {v : Valued}
        (harg : argument = long v.name ∨
          ∃ letter, v.letter? = some letter ∧ argument = [dash, letter])
        (hspells : ∀ value, IsValue value → (Choice.valued v value).Spells [argument, value]) :
        TakesIn cs (argument :: rest) cs' := by
      match rest with
      | [] => exact takesIn_of_fails (hP.fails_without_value cs harg) hok
      | next :: others =>
        by_cases hnext : IsValue next
        · have hless : others.length < (argument :: next :: others).length := by
            simp only [List.length_cons]
            omega
          exact takesIn_of_spells hP hcs (hspells next hnext) (behind hless) hok
        · exact takesIn_of_fails (hP.fails_before_option cs others harg hnext) hok
    by_cases hdeclared : IsDeclared argument
    · cases hdeclared with
      | mark =>
        match rest with
        | [] =>
          rw [hP.takeIn_mark] at hok
          obtain rfl := Except.ok.inj hok
          exact ⟨[], .marked, (List.append_nil _).symm, hcs⟩
        | next :: others => exact takesIn_of_fails (hP.fails_after_mark cs next others) hok
      | long named =>
        cases named with
        | help => cases (hP.help cs rest).symm.trans hok
        | flag f => exact single (.flag f)
        | valued v => exact waiting (.inl rfl) fun value hvalue => .separate v hvalue
      | longWithValue named value =>
        cases named with
        | help => exact takesIn_of_fails (hP.fails_help_with_value cs value rest) hok
        | flag f => exact takesIn_of_fails (hP.fails_flag_with_value f cs value rest) hok
        | valued v => exact single (.attached v value)
      | @short named letter hletter letters =>
        cases named with
        | help => cases (hP.help_short cs letters rest hletter).symm.trans hok
        | flag f => cases hletter
        | valued v =>
          obtain ⟨rfl, rfl⟩ := Valued.letter?_eq_some_iff.1 hletter
          match letters with
          | [] => exact waiting (.inr ⟨_, rfl, rfl⟩) fun value hvalue => .shortSeparate hvalue
          | first :: others =>
            by_cases hfirst : first = equalsSign
            · subst hfirst
              exact single (.shortEquals others)
            · exact single (.shortAttached others hfirst)
    · exact takesIn_of_fails (hP.fails_undeclared cs rest hdeclared) hok

/-- Arguments are taken in behind consistent choices exactly if they spell choices that fit, which
are added to those before. -/
theorem takeIn_eq_ok_iff (hP : P.Lawful) (hcs : Consistent cs) :
    P.takeIn cs arguments = .ok cs' ↔
      ∃ more, Spelled more arguments ∧ cs' = cs ++ more ∧ Consistent cs' := by
  constructor
  · exact hP.takesIn_of_takeIn hcs
  · rintro ⟨more, hmore, h⟩
    exact (hP.takeIn_eq_ok_iff_of_spelled hmore hcs).2 h

end Parser.Lawful

/-! ### What a command line asks for -/

section Read

variable {P : Parser} {arguments : List Bytes}

/-- What is read is what the choices request that are spelled, if they can be made together. -/
theorem Request.read_eq_ok_iff_of_spelled (hP : P.Lawful) {cs : List Choice}
    (h : Spelled cs arguments) {r : Request} :
    Request.read P arguments = .ok r ↔ Admissible cs ∧ r = .ofChoices cs := by
  have htake {cs' : List Choice} : P.takeIn [] arguments = .ok cs' ↔ cs' = cs ∧ Consistent cs' :=
    hP.takeIn_eq_ok_iff_of_spelled h consistent_nil
  rw [read, Parser.parse, Except.bind_eq_ok_iff]
  constructor
  · rintro ⟨found, hparse, hrequest⟩
    obtain ⟨cs', htaken, hfinish⟩ := Except.bind_eq_ok_iff.1 hparse
    obtain ⟨rfl, hcs⟩ := htake.1 htaken
    exact (hP.finish_and_request_iff hcs).1 ⟨found, hfinish, hrequest⟩
  · rintro ⟨hcs, hr⟩
    obtain ⟨found, hfinish, hrequest⟩ := (hP.finish_and_request_iff hcs.toConsistent).2 ⟨hcs, hr⟩
    exact ⟨found, Except.bind_eq_ok_iff.2 ⟨cs, htake.2 ⟨rfl, hcs.toConsistent⟩, hfinish⟩,
      hrequest⟩

theorem Request.read_eq_ok_iff (hP : P.Lawful) {r : Request} :
    Request.read P arguments = .ok r ↔
      ∃ cs, Spelled cs arguments ∧ Admissible cs ∧ r = .ofChoices cs := by
  constructor
  · intro h
    obtain ⟨found, hparse, -⟩ := Except.bind_eq_ok_iff.1 h
    obtain ⟨cs', htaken, -⟩ := Except.bind_eq_ok_iff.1 hparse
    obtain ⟨cs, hspelled, -⟩ := (hP.takeIn_eq_ok_iff consistent_nil).1 htaken
    exact ⟨cs, hspelled, (read_eq_ok_iff_of_spelled hP hspelled).1 h⟩
  · rintro ⟨cs, hspelled, h⟩
    exact (read_eq_ok_iff_of_spelled hP hspelled).2 h

theorem Invocation.read_eq_ok_iff {i : Invocation} :
    Invocation.read P arguments = .ok i ↔
      ∃ r, Request.read P arguments = .ok r ∧ r.invocation = i :=
  Except.map_eq_ok_iff

theorem Invocation.read_eq_ok_iff_spelled (hP : P.Lawful) {i : Invocation} :
    Invocation.read P arguments = .ok i ↔
      ∃ cs, Spelled cs arguments ∧ Admissible cs ∧ i = .ofChoices cs := by
  rw [read_eq_ok_iff]
  constructor
  · rintro ⟨r, hread, rfl⟩
    obtain ⟨cs, hspelled, hcs, rfl⟩ := (Request.read_eq_ok_iff hP).1 hread
    exact ⟨cs, hspelled, hcs, Request.invocation_ofChoices cs⟩
  · rintro ⟨cs, hspelled, hcs, rfl⟩
    exact ⟨_, (Request.read_eq_ok_iff hP).2 ⟨cs, hspelled, hcs, rfl⟩,
      Request.invocation_ofChoices cs⟩

/-- The same choices in another order request the same, if the included headers keep theirs. -/
theorem Request.read_of_perm (hP : P.Lawful) {cs cs' : List Choice} {arguments' : List Bytes}
    (hspelled : Spelled cs arguments) (hspelled' : Spelled cs' arguments') (hperm : cs.Perm cs')
    (hincludes : values .addInclude cs = values .addInclude cs') {r : Request}
    (h : Request.read P arguments = .ok r) : Request.read P arguments' = .ok r := by
  obtain ⟨hcs, rfl⟩ := (read_eq_ok_iff_of_spelled hP hspelled).1 h
  exact (read_eq_ok_iff_of_spelled hP hspelled').2 ⟨hcs.perm hperm,
    hcs.toConsistent.request_eq_of_perm hperm hincludes⟩

end Read

/-- With a parser that keeps the rules, a command line is accepted exactly if it spells choices that
can be made together, and then it requests these choices, with the default for everything that is
not chosen, and asks for what they settle. The same choices, spelled in another way and in another
order, are accepted as well and request the same, if the included headers keep their order. -/
theorem read_accepts_spelled_choices (P : Parser) (hP : P.Lawful) (arguments : List Bytes) :
    (∀ r : Request, Request.read P arguments = .ok r ↔
      ∃ cs, Spelled cs arguments ∧ Admissible cs ∧ r = .ofChoices cs) ∧
    (∀ i : Invocation, Invocation.read P arguments = .ok i ↔
      ∃ cs, Spelled cs arguments ∧ Admissible cs ∧ i = .ofChoices cs) ∧
    ∀ (cs cs' : List Choice) (arguments' : List Bytes), Spelled cs arguments →
      Spelled cs' arguments' → cs.Perm cs' → values .addInclude cs = values .addInclude cs' →
      ∀ r, Request.read P arguments = .ok r ↔ Request.read P arguments' = .ok r := by
  refine ⟨fun r => Request.read_eq_ok_iff hP, fun i => Invocation.read_eq_ok_iff_spelled hP,
    fun cs cs' arguments' hspelled hspelled' hperm hincludes r => ?_⟩
  exact ⟨Request.read_of_perm hP hspelled hspelled' hperm hincludes,
    Request.read_of_perm hP hspelled' hspelled hperm.symm hincludes.symm⟩

/-- Two spellings of the same choices, of which every option has one. -/
theorem read_accepts_spelled_choices_reordered :
    ∃ (cs cs' : List Choice) (arguments arguments' : List Bytes) (r : Request),
      arguments = ["-o=x/=.h", "--defs", "d", "--include", "<a>", "--visitor",
        "--visitor-return=int", "--include=", "--title", "-", "--base=B", "--namespace=",
        "--copyright", "c", "--stdout", "--description=--", "--since", "v2", "--"].map
          Text.encode ∧
      arguments' = ["--visitor-return", "int", "--since=v2", "--include=<a>", "--title=-",
        "--include", "", "--description=--", "--copyright=c", "-ox/=.h", "--namespace", "",
        "--visitor", "--base", "B", "--defs=d", "--stdout"].map Text.encode ∧
      Spelled cs arguments ∧ Spelled cs' arguments' ∧ cs.Perm cs' ∧
      values .addInclude cs = values .addInclude cs' ∧
      r =
        { defs := some (.ofString "d"), out := .ofString "x/=.h", stdout := true, base := "B"
          namespaceName := "", includes := ["<a>", ""], title := some "-", copyright := some "c"
          description := some "--", since := some "v2", visitor := true
          visitorReturn := "int" } ∧
      Admissible cs ∧ Request.read .standard arguments = .ok r ∧
      Request.read .standard arguments' = .ok r ∧
      Invocation.read .standard arguments = .ok (.ofChoices cs) := by
  let text (v : Valued) (value : String) : Choice := .valued v (Text.encode value)
  let cs : List Choice := [text .out "x/=.h", text .defs "d", text .addInclude "<a>",
    .flag .visitor, text .visitorReturn "int", text .addInclude "", text .title "-",
    text .base "B", text .namespaceName "", text .copyright "c", .flag .stdout,
    text .description "--", text .since "v2"]
  let cs' : List Choice := [text .visitorReturn "int", text .since "v2", text .addInclude "<a>",
    text .title "-", text .addInclude "", text .description "--", text .copyright "c",
    text .out "x/=.h", text .namespaceName "", .flag .visitor, text .base "B", text .defs "d",
    .flag .stdout]
  let arguments : List Bytes := ["-o=x/=.h", "--defs", "d", "--include", "<a>", "--visitor",
    "--visitor-return=int", "--include=", "--title", "-", "--base=B", "--namespace=",
    "--copyright", "c", "--stdout", "--description=--", "--since", "v2", "--"].map Text.encode
  let arguments' : List Bytes := ["--visitor-return", "int", "--since=v2", "--include=<a>",
    "--title=-", "--include", "", "--description=--", "--copyright=c", "-ox/=.h", "--namespace",
    "", "--visitor", "--base", "B", "--defs=d", "--stdout"].map Text.encode
  let r : Request :=
    { defs := some (.ofString "d"), out := .ofString "x/=.h", stdout := true, base := "B"
      namespaceName := "", includes := ["<a>", ""], title := some "-", copyright := some "c"
      description := some "--", since := some "v2", visitor := true, visitorReturn := "int" }
  have hspelled : Spelled cs arguments :=
    .cons (.shortEquals _) <| .cons (.separate .defs (by decide)) <|
      .cons (.separate .addInclude (by decide)) <| .cons (.flag _) <| .cons (.attached _ _) <|
      .cons (.attached _ _) <| .cons (.separate .title (by decide)) <| .cons (.attached _ _) <|
      .cons (.attached _ _) <| .cons (.separate .copyright (by decide)) <| .cons (.flag _) <|
      .cons (.attached _ _) <| .cons (.separate .since (by decide)) .marked
  have hspelled' : Spelled cs' arguments' :=
    .cons (.separate .visitorReturn (by decide)) <| .cons (.attached _ _) <|
      .cons (.attached _ _) <| .cons (.attached _ _) <|
      .cons (.separate .addInclude (by decide)) <| .cons (.attached _ _) <|
      .cons (.attached _ _) <| .cons (.shortAttached _ (by decide)) <|
      .cons (.separate .namespaceName (by decide)) <| .cons (.flag _) <|
      .cons (.separate .base (by decide)) <| .cons (.attached _ _) <| .cons (.flag _) .nil
  have hperm : cs.Perm cs' := by decide +kernel
  have hincludes : values .addInclude cs = values .addInclude cs' := by decide
  obtain ⟨-, hread, hreordered⟩ :=
    read_accepts_spelled_choices .standard Parser.standard_lawful arguments
  have hr : Request.read .standard arguments = .ok r := by rfl
  obtain ⟨hcs, -⟩ := (Request.read_eq_ok_iff_of_spelled Parser.standard_lawful hspelled).1 hr
  exact ⟨cs, cs', arguments, arguments', r, rfl, rfl, hspelled, hspelled', hperm, hincludes, rfl,
    hcs, hr, (hreordered cs cs' arguments' hspelled hspelled' hperm hincludes r).1 hr,
    (hread _).2 ⟨cs, hspelled, hcs, rfl⟩⟩

end NodeHeader.CommandLine
