/-
  What choices on the command line settle.

  Choices can be made together if nothing is chosen twice but an included header, and the options
  accept their values (`Consistent`), and if no type is chosen for a visitor without the flag for
  one (`Admissible`). A choice can then be made after others exactly if it fits them
  (`consistent_concat_iff`).

  What such choices request is what can be looked up among them, with the default where nothing is
  given (`Request.ofChoices`). A parser that keeps the rules finds this in them, and in no others
  (`Parser.Lawful.finish_and_request_iff`). So the order of choices does not matter, but for the
  included headers (`Consistent.request_eq_of_perm`).
-/
import NodeHeader.CommandLine.Invocation
import NodeHeader.Proofs.Traced
import Mathlib.Data.List.Induction
import Mathlib.Tactic.ByContra

namespace NodeHeader.CommandLine

open NodeHeader.Files (Path)
open NodeHeader.Text (Bytes)
open NodeHeader.CommandLine.Parser (Fits)

/-! ### Values that are given -/

theorem mem_values_iff {v : Valued} {cs : List Choice} {value : Bytes} :
    value ∈ values v cs ↔ Choice.valued v value ∈ cs := by
  rw [values, List.mem_filterMap]
  constructor
  · rintro ⟨c, hc, hvalue⟩
    cases c with
    | flag f => cases hvalue
    | valued v' value' =>
      obtain ⟨rfl, rfl⟩ : v' = v ∧ value' = value := by simpa [Choice.value?] using hvalue
      exact hc
  · intro h
    exact ⟨_, h, if_pos rfl⟩

@[simp] theorem values_cons_flag (v : Valued) (f : Flag) (cs : List Choice) :
    values v (.flag f :: cs) = values v cs := rfl

@[simp] theorem values_concat_flag (v : Valued) (cs : List Choice) (f : Flag) :
    values v (cs ++ [.flag f]) = values v cs := by
  simp [values, Choice.value?]

@[simp] theorem values_concat_valued (v v' : Valued) (cs : List Choice) (value : Bytes) :
    values v (cs ++ [.valued v' value]) = values v cs ++ if v' = v then [value] else [] := by
  by_cases h : v' = v <;> simp [values, Choice.value?, h]

/-! ### What is declared of the options -/

namespace Valued

variable {v : Valued}

theorem isRepeatable_eq_false_iff : v.isRepeatable = false ↔ v ≠ .addInclude := by
  cases v <;> simp [isRepeatable]

theorem requires?_eq_some_iff {f : Flag} :
    v.requires? = some f ↔ v = .visitorReturn ∧ f = .visitor := by
  cases v <;> simp [requires?, eq_comm]

/-- Two options take paths, which must not be empty, and the others take texts. -/
theorem accepts_iff {value : Bytes} :
    v.Accepts value ↔ (v = .defs ∨ v = .out → value ≠ []) ∧
      (v ≠ .defs → v ≠ .out → ∃ text, value = Text.encode text) := by
  cases v <;> simp [Accepts, kind]

end Valued

/-! ### Choices that can be made one after another -/

/-- Choices that fit one after another: nothing is chosen twice but an included header, paths are
not empty, and all other values are texts. -/
structure Consistent (cs : List Choice) : Prop where
  flag_once : ∀ f, cs.count (.flag f) ≤ 1
  valued_once : ∀ v ≠ .addInclude, (values v cs).length ≤ 1
  path_ne_nil : ∀ v value, Choice.valued v value ∈ cs → v = .defs ∨ v = .out → value ≠ []
  exists_text : ∀ v value, Choice.valued v value ∈ cs → v ≠ .defs → v ≠ .out →
    ∃ text, value = Text.encode text

theorem Consistent.accepts {cs : List Choice} (h : Consistent cs) (v : Valued) (value : Bytes)
    (hmem : Choice.valued v value ∈ cs) : v.Accepts value :=
  Valued.accepts_iff.2 ⟨h.path_ne_nil v value hmem, h.exists_text v value hmem⟩

theorem Consistent.of_accepts {cs : List Choice} (hflag : ∀ f, cs.count (.flag f) ≤ 1)
    (hvalued : ∀ v ≠ .addInclude, (values v cs).length ≤ 1)
    (haccepts : ∀ v value, Choice.valued v value ∈ cs → v.Accepts value) : Consistent cs where
  flag_once := hflag
  valued_once := hvalued
  path_ne_nil v value hmem := (Valued.accepts_iff.1 (haccepts v value hmem)).1
  exists_text v value hmem := (Valued.accepts_iff.1 (haccepts v value hmem)).2

theorem consistent_nil : Consistent [] where
  flag_once := by simp
  valued_once := by simp [values]
  path_ne_nil := by simp
  exists_text := by simp

theorem consistent_concat_flag_iff {cs : List Choice} {f : Flag} :
    Consistent (cs ++ [.flag f]) ↔ Consistent cs ∧ Choice.flag f ∉ cs := by
  have hcount (f' : Flag) : (cs ++ [Choice.flag f]).count (.flag f') =
      cs.count (.flag f') + if f' = f then 1 else 0 := by
    rw [List.count_append, List.count_singleton]
    by_cases h : f' = f
    · simp [h]
    · simp [h, Ne.symm h]
  constructor
  · intro h
    have honce := h.flag_once f
    rw [hcount, if_pos rfl] at honce
    refine ⟨.of_accepts (fun f' => ?_) (by simpa using h.valued_once) (by simpa using h.accepts),
      List.count_eq_zero.1 (by omega)⟩
    exact Nat.le_trans (by rw [hcount]; omega) (h.flag_once f')
  · rintro ⟨h, hmem⟩
    refine .of_accepts (fun f' => ?_) (by simpa using h.valued_once) (by simpa using h.accepts)
    rw [hcount]
    split
    · next heq =>
      have hzero : cs.count (.flag f) = 0 := List.count_eq_zero.2 hmem
      rw [heq]
      omega
    · exact h.flag_once f'

theorem consistent_concat_valued_iff {cs : List Choice} {v : Valued} {value : Bytes} :
    Consistent (cs ++ [.valued v value]) ↔ Consistent cs ∧ Fits cs (.valued v value) := by
  have hcount (f : Flag) :
      (cs ++ [Choice.valued v value]).count (.flag f) = cs.count (.flag f) := by
    simp [List.count_append]
  constructor
  · intro h
    refine ⟨.of_accepts (fun f => hcount f ▸ h.flag_once f) (fun v' hv' => ?_)
      (fun v' value' hmem => ?_), fun hv => ?_,
      h.accepts v value (List.mem_append_right _ List.mem_cons_self)⟩
    · have honce := h.valued_once v' hv'
      rw [values_concat_valued, List.length_append] at honce
      omega
    · exact h.accepts v' value' (List.mem_append_left _ hmem)
    · have honce := h.valued_once v (Valued.isRepeatable_eq_false_iff.1 hv)
      rw [values_concat_valued, if_pos rfl, List.length_append, List.length_singleton] at honce
      exact List.length_eq_zero_iff.1 (by omega)
  · rintro ⟨h, hnil, haccepts⟩
    refine .of_accepts (fun f => (hcount f).symm ▸ h.flag_once f) (fun v' hv' => ?_)
      (fun v' value' hmem => ?_)
    · rw [values_concat_valued]
      split
      · next heq =>
        subst heq
        have hgiven : values v cs = [] := hnil (Valued.isRepeatable_eq_false_iff.2 hv')
        simp [hgiven]
      · rw [List.append_nil]
        exact h.valued_once v' hv'
    · rw [List.mem_append, List.mem_singleton] at hmem
      rcases hmem with hmem | hmem
      · exact h.accepts v' value' hmem
      · obtain ⟨rfl, rfl⟩ := Choice.valued.inj hmem
        exact haccepts

theorem consistent_concat_iff {cs : List Choice} {c : Choice} :
    Consistent (cs ++ [c]) ↔ Consistent cs ∧ Fits cs c := by
  cases c with
  | flag f => exact consistent_concat_flag_iff
  | valued v value => exact consistent_concat_valued_iff

/-- The first ones of consistent choices are consistent. -/
theorem Consistent.of_append {cs more : List Choice} (h : Consistent (cs ++ more)) :
    Consistent cs := by
  induction more using List.reverseRecOn with
  | nil => simpa using h
  | append_singleton more c ih =>
    rw [← List.append_assoc] at h
    exact ih (consistent_concat_iff.1 h).1

/-- Choices that can be made together: no type is chosen for a visitor without the flag for one. -/
structure Admissible (cs : List Choice) : Prop extends Consistent cs where
  visitor_of_return : ∀ value, Choice.valued .visitorReturn value ∈ cs → Choice.flag .visitor ∈ cs

theorem Admissible.required {cs : List Choice} (h : Admissible cs) (v : Valued) (value : Bytes)
    (f : Flag) (hmem : Choice.valued v value ∈ cs) (hrequires : v.requires? = some f) :
    Choice.flag f ∈ cs := by
  obtain ⟨rfl, rfl⟩ := Valued.requires?_eq_some_iff.1 hrequires
  exact h.visitor_of_return value hmem

/-! ### What choices request -/

/-- The path that is given to an option. -/
def path? (v : Valued) (cs : List Choice) : Option Path :=
  (values v cs).head?.map Files.Path.mk

/-- The text that is given to an option. -/
def text? (v : Valued) (cs : List Choice) : Option String :=
  (values v cs).head?.bind Text.decode?

/-- All texts that are given to an option, in order. -/
def texts (v : Valued) (cs : List Choice) : List String :=
  (values v cs).filterMap Text.decode?

/-- What choices request, with everything that is not chosen written out. -/
def Request.ofChoices (cs : List Choice) : Request where
  defs := path? .defs cs
  out := (path? .out cs).getD (.ofString "Expr.h")
  stdout := Choice.flag .stdout ∈ cs
  base := (text? .base cs).getD "Expr"
  namespaceName := (text? .namespaceName cs).getD "dargon"
  includes := texts .addInclude cs
  title := text? .title cs
  copyright := text? .copyright cs
  description := text? .description cs
  since := text? .since cs
  visitor := Choice.flag .visitor ∈ cs
  visitorReturn := (text? .visitorReturn cs).getD "void"

/-- What choices ask for, with everything that is not chosen written out. -/
def Invocation.ofChoices (cs : List Choice) : Invocation :=
  let out := (path? .out cs).getD (.ofString "Expr.h")
  { defs := path? .defs cs
    out
    stdout := Choice.flag .stdout ∈ cs
    settings :=
      { base := (text? .base cs).getD "Expr"
        namespaceName := (text? .namespaceName cs).getD "dargon"
        includes :=
          (if (path? .defs cs).isNone then ["<string>", "\"../lex/Token.h\""]
            else ["<string>"]) ++ texts .addInclude cs
        metadata :=
          { title := (text? .title cs).getD "Dargon Programming Language"
            copyright := (text? .copyright cs).getD
              "(C) Kyle Morris 2023 - See LICENSE.txt for license information"
            fileName := (out.fileName?.map Text.decodeLossy).getD "Expr.h"
            description := (text? .description cs).getD "Expressions."
            version := (text? .since cs).getD "v0.1" }
        visitor :=
          if Choice.flag .visitor ∈ cs then
            some { returnType := (text? .visitorReturn cs).getD "void" }
          else none } }

theorem Request.invocation_ofChoices (cs : List Choice) :
    (ofChoices cs).invocation = Invocation.ofChoices cs := by
  have hincludes : (if (ofChoices cs).defs.isNone then Builtin.settings else {}).includes =
      if (path? .defs cs).isNone then ["<string>", "\"../lex/Token.h\""] else ["<string>"] :=
    (apply_ite Settings.includes ..).trans rfl
  have hvisitor {α : Type} (x y : α) :
      (if (ofChoices cs).visitor = true then x else y) =
        if Choice.flag .visitor ∈ cs then x else y :=
    if_congr decide_eq_true_iff rfl rfl
  simp only [invocation, settings, hincludes, hvisitor]
  rfl

/-! ### What a parser finds in choices -/

section Matches

variable {P : Parser} {cs : List Choice} {found : Matches} {v : Valued}

/-- A path is that which is given, or the default. -/
theorem Parser.Lawful.path?_eq (hP : P.Lawful) (h : P.finish cs = .ok found) :
    found.path? v = (path? v cs).or (v.default?.map Path.ofString) := by
  rw [Matches.path?, CommandLine.path?]
  by_cases hvalues : values v cs = []
  · rw [hP.values_of_default h hvalues, hvalues]
    cases v.default? <;> rfl
  · rw [hP.values_of_given h hvalues]
    obtain ⟨value, rest, hcons⟩ := List.exists_cons_of_ne_nil hvalues
    simp [hcons]

/-- A text is that which is given, or the default. -/
theorem Parser.Lawful.text?_eq (hP : P.Lawful) (h : P.finish cs = .ok found)
    (hcs : Consistent cs) (hdefs : v ≠ .defs) (hout : v ≠ .out) :
    found.text? v = (text? v cs).or v.default? := by
  rw [Matches.text?, CommandLine.text?]
  by_cases hvalues : values v cs = []
  · rw [hP.values_of_default h hvalues, hvalues]
    cases v.default? <;> simp [Text.decode?_encode]
  · rw [hP.values_of_given h hvalues]
    obtain ⟨value, rest, hcons⟩ := List.exists_cons_of_ne_nil hvalues
    have hmem : Choice.valued v value ∈ cs :=
      mem_values_iff.1 (by rw [hcons]; exact List.mem_cons_self)
    obtain ⟨text, rfl⟩ := hcs.exists_text v value hmem hdefs hout
    simp [hcons, Text.decode?_encode]

/-- What is collected has no default. -/
theorem Parser.Lawful.texts_eq (hP : P.Lawful) (h : P.finish cs = .ok found)
    (hv : v.default? = none) : found.texts v = texts v cs := by
  rw [Matches.texts, CommandLine.texts]
  by_cases hvalues : values v cs = []
  · rw [hP.values_of_default h hvalues, hvalues, hv]
    rfl
  · rw [hP.values_of_given h hvalues]

theorem Parser.Lawful.request_eq (hP : P.Lawful) (h : P.finish cs = .ok found)
    (hcs : Consistent cs) : Request.ofMatches found = .ok (.ofChoices cs) := by
  have hflag (f : Flag) : found.flag f = decide (Choice.flag f ∈ cs) :=
    Bool.eq_iff_iff.2 ((hP.flag_iff f h).trans decide_eq_true_iff.symm)
  have hpath (v : Valued) : found.path? v = _ := hP.path?_eq h
  have htext (v : Valued) (hdefs : v ≠ .defs) (hout : v ≠ .out) : found.text? v = _ :=
    hP.text?_eq h hcs hdefs hout
  have htexts : found.texts .addInclude = texts .addInclude cs := hP.texts_eq h rfl
  rw [Request.ofMatches, hpath .out, htext .base nofun nofun, htext .namespaceName nofun nofun,
    htext .visitorReturn nofun nofun, hpath .defs, htext .title nofun nofun,
    htext .copyright nofun nofun, htext .description nofun nofun, htext .since nofun nofun,
    hflag, hflag, htexts]
  simp only [Valued.default?, Option.map_some, Option.or_some, Option.map_none, Option.or_none]
  rfl

/-- A parser finds a request in consistent choices exactly if they can be made together, and it is
what they request. -/
theorem Parser.Lawful.finish_and_request_iff (hP : P.Lawful) (hcs : Consistent cs) {r : Request} :
    (∃ found, P.finish cs = .ok found ∧ Request.ofMatches found = .ok r) ↔
      Admissible cs ∧ r = .ofChoices cs := by
  constructor
  · rintro ⟨found, hfinish, hrequest⟩
    refine ⟨⟨hcs, fun value hmem => ?_⟩, ?_⟩
    · by_contra hnot
      obtain ⟨usage, -, herror⟩ := hP.fails_required hmem rfl hnot
      cases hfinish.symm.trans herror
    · exact Except.ok.inj (hrequest.symm.trans (hP.request_eq hfinish hcs))
  · rintro ⟨hadmissible, rfl⟩
    obtain ⟨found, hfinish⟩ := hP.exists_finish hadmissible.required
    exact ⟨found, hfinish, hP.request_eq hfinish hcs⟩

end Matches

/-! ### The order of choices -/

section Perm

variable {cs cs' : List Choice}

theorem Admissible.perm (h : Admissible cs) (hperm : cs.Perm cs') : Admissible cs' where
  flag_once f := hperm.count_eq (.flag f) ▸ h.flag_once f
  valued_once v hv := by
    have hvalues : (values v cs).Perm (values v cs') := hperm.filterMap _
    rw [← hvalues.length_eq]
    exact h.valued_once v hv
  path_ne_nil v value hmem := h.path_ne_nil v value (hperm.mem_iff.2 hmem)
  exists_text v value hmem := h.exists_text v value (hperm.mem_iff.2 hmem)
  visitor_of_return value hmem :=
    hperm.mem_iff.1 (h.visitor_of_return value (hperm.mem_iff.2 hmem))

/-- What is given at most once is given alike in any order. -/
theorem Consistent.values_eq_of_perm (h : Consistent cs) (hperm : cs.Perm cs')
    (hincludes : values .addInclude cs = values .addInclude cs') (v : Valued) :
    values v cs = values v cs' := by
  by_cases hv : v = .addInclude
  · rw [hv, hincludes]
  · have hvalues : (values v cs).Perm (values v cs') := hperm.filterMap _
    have honce := h.valued_once v hv
    rcases hcs : values v cs with _ | ⟨value, _ | ⟨value', others⟩⟩
    · rw [hcs] at hvalues
      exact hvalues.symm.eq_nil.symm
    · rw [hcs] at hvalues
      exact (List.singleton_perm.1 hvalues)
    · rw [hcs] at honce
      simp at honce

theorem Consistent.request_eq_of_perm (h : Consistent cs) (hperm : cs.Perm cs')
    (hincludes : values .addInclude cs = values .addInclude cs') :
    Request.ofChoices cs = Request.ofChoices cs' := by
  have hvalues := h.values_eq_of_perm hperm hincludes
  simp only [Request.ofChoices, path?, text?, texts, hvalues, hperm.mem_iff]

end Perm

end NodeHeader.CommandLine
