/-
  The guard of a header, read off the runs of its source.

  `Guard.extend` decides by what the macro holds so far whether a sign adds an underscore.
  `Guard.canonical` does not look at the macro: it takes the maximal runs of letters and digits
  of the source, joins them in upper case, and adds an underscore for signs at the end. That
  both make the same macro is an induction on the source run by run (`Guard.run_induction`);
  what it carries is that the macro so far is empty or ends with an underscore
  (`Guard.squeeze_append_eq`).

  `Settings.guard_eq_canonical` puts this together with what `Guard.isMacroName_ofNames` and
  `Guard.ofNames_of_isMacroName` say of guards, for namespaces and file names of any text.
-/
import NodeHeader.Proofs.Header.Guard

namespace NodeHeader

namespace Guard

/-! ### Runs -/

/-- The maximal runs of letters and digits of ASCII, in order. -/
def runs (cs : List Char) : List (List Char) :=
  (cs.splitOnP (!·.isAlphanum)).filter (!·.isEmpty)

/-- The runs in upper case with an underscore between two of them, and one more if there is a
run and the text does not end with it. -/
def joined (cs : List Char) : List Char :=
  ['_'].intercalate ((runs cs).map (·.map Char.toUpper)) ++
    if runs cs ≠ [] ∧ cs.getLast?.any (!·.isAlphanum) then ['_'] else []

/-- The macro of a source by its runs. -/
def canonical (source : String) : String :=
  if runs source.toList = [] then "HEADER"
  else if (joined source.toList).head?.any Char.isDigit then
    "HEADER_" ++ String.ofList (joined source.toList)
  else String.ofList (joined source.toList)

/-- Letters and digits, at least one. -/
structure IsRun (w : List Char) : Prop where
  ne_nil : w ≠ []
  isAlphanum : ∀ c ∈ w, c.isAlphanum = true

/-- A text is empty, or begins with a sign, or is a run, or begins with a run and a sign. -/
theorem run_induction {motive : List Char → Prop} (nil : motive [])
    (sign : ∀ c cs, c.isAlphanum = false → motive cs → motive (c :: cs))
    (run : ∀ w, IsRun w → motive w)
    (run_sign : ∀ w c cs, IsRun w → c.isAlphanum = false → motive cs → motive (w ++ c :: cs))
    (cs : List Char) : motive cs := by
  induction hlength : cs.length using Nat.strong_induction_on generalizing cs with
  | _ length ih =>
    subst hlength
    cases cs with
    | nil => exact nil
    | cons c rest =>
      cases hc : c.isAlphanum with
      | false => exact sign c rest hc (ih rest.length (by simp) rest rfl)
      | true =>
        have hw : IsRun (c :: rest.takeWhile Char.isAlphanum) :=
          ⟨by simp, List.forall_mem_cons.2 ⟨hc, List.all_eq_true.1 List.all_takeWhile⟩⟩
        have hsplit := List.takeWhile_append_dropWhile (p := Char.isAlphanum) (l := rest)
        cases hdrop : rest.dropWhile Char.isAlphanum with
        | nil =>
          rw [hdrop, List.append_nil] at hsplit
          rw [hsplit] at hw
          exact run _ hw
        | cons d after =>
          have hd : d.isAlphanum = false := by
            have hnot := List.head_dropWhile_not Char.isAlphanum (l := rest) (by simp [hdrop])
            simpa [hdrop] using hnot
          have hshort : after.length < (c :: rest).length := by
            rw [← hsplit, hdrop]
            simp
            omega
          have heq : c :: rest = (c :: rest.takeWhile Char.isAlphanum) ++ d :: after := by
            rw [List.cons_append, ← hdrop, hsplit]
          rw [heq]
          exact run_sign _ d after hw hd (ih after.length hshort after rfl)

/-- A sign parts what stands before it from what stands behind it. -/
theorem runs_append_cons {c : Char} (hc : c.isAlphanum = false) (cs ds : List Char) :
    runs (cs ++ c :: ds) = runs cs ++ runs ds := by
  rw [runs, List.splitOnP_append_cons cs ds (by simp [hc]), List.filter_append, ← runs, ← runs]

theorem runs_sign {c : Char} (hc : c.isAlphanum = false) (cs : List Char) :
    runs (c :: cs) = runs cs :=
  runs_append_cons hc [] cs

theorem runs_run {w : List Char} (hw : IsRun w) : runs w = [w] := by
  rw [runs, List.splitOnP_eq_singleton fun c hc => by simp [hw.isAlphanum c hc]]
  simp [hw.ne_nil]

theorem runs_run_sign {w : List Char} (hw : IsRun w) {c : Char} (hc : c.isAlphanum = false)
    (cs : List Char) : runs (w ++ c :: cs) = w :: runs cs := by
  rw [runs_append_cons hc, runs_run hw, List.singleton_append]

theorem runs_eq_nil_iff {cs : List Char} : runs cs = [] ↔ ∀ c ∈ cs, c.isAlphanum = false := by
  induction cs using run_induction with
  | nil => simp [runs]
  | sign c cs hc ih => rw [runs_sign hc, ih, List.forall_mem_cons, and_iff_right hc]
  | run w hw =>
    obtain ⟨c, hc⟩ := List.exists_mem_of_ne_nil w hw.ne_nil
    refine iff_of_false (by simp [runs_run hw]) fun hall => ?_
    exact absurd (hw.isAlphanum c hc) (by simp [hall c hc])
  | run_sign w d cs hw hd ih =>
    obtain ⟨c, hc⟩ := List.exists_mem_of_ne_nil w hw.ne_nil
    refine iff_of_false (by simp [runs_run_sign hw hd]) fun hall => ?_
    exact absurd (hw.isAlphanum c hc) (by simp [hall c (by simp [hc])])

/-! ### Joined runs -/

theorem joined_sign {c : Char} (hc : c.isAlphanum = false) (cs : List Char) :
    joined (c :: cs) = joined cs := by
  rw [joined, joined, runs_sign hc]
  cases cs with
  | nil => rfl
  | cons d rest => rw [List.getLast?_cons_cons]

theorem joined_run {w : List Char} (hw : IsRun w) : joined w = w.map Char.toUpper := by
  have hlast : w.getLast?.any (!·.isAlphanum) = false := by
    rw [List.getLast?_eq_some_getLast hw.ne_nil, Option.any_some,
      hw.isAlphanum _ (List.getLast_mem hw.ne_nil)]
    rfl
  simp [joined, runs_run hw, hlast]

theorem joined_run_sign {w : List Char} (hw : IsRun w) {c : Char} (hc : c.isAlphanum = false)
    (cs : List Char) : joined (w ++ c :: cs) = w.map Char.toUpper ++ '_' :: joined cs := by
  rw [joined, runs_run_sign hw hc, joined]
  cases hruns : runs cs with
  | nil =>
    -- there are only signs after the run
    have hsigns : ∀ d ∈ c :: cs, d.isAlphanum = false :=
      List.forall_mem_cons.2 ⟨hc, runs_eq_nil_iff.1 hruns⟩
    have hlast : (w ++ c :: cs).getLast?.any (!·.isAlphanum) = true := by
      rw [List.getLast?_append_of_ne_nil w (by simp), List.getLast?_eq_some_getLast (by simp),
        Option.any_some, hsigns _ (List.getLast_mem _)]
      rfl
    rw [if_pos ⟨by simp, hlast⟩]
    simp
  | cons r rs =>
    have hne : cs ≠ [] := by
      rintro rfl
      cases hruns
    have hlast : (w ++ c :: cs).getLast? = cs.getLast? := by
      rw [List.append_cons, List.getLast?_append_of_ne_nil _ hne]
    simp [hlast, List.intercalate_cons_cons]

theorem joined_eq_nil_iff {cs : List Char} : joined cs = [] ↔ runs cs = [] := by
  induction cs using run_induction with
  | nil => simp [joined, runs]
  | sign c cs hc ih => rw [joined_sign hc, runs_sign hc, ih]
  | run w hw => simp [joined_run hw, runs_run hw, hw.ne_nil]
  | run_sign w c cs hw hc ih => simp [joined_run_sign hw hc, runs_run_sign hw hc]

/-! ### Squeezing run by run -/

theorem squeeze_append_run {w : List Char} (hw : ∀ c ∈ w, c.isAlphanum = true) (cs : List Char) :
    squeeze (cs ++ w) = squeeze cs ++ w.map Char.toUpper := by
  induction w using List.reverseRecOn with
  | nil => simp
  | append_singleton w c ih =>
    obtain ⟨hw, hc⟩ := List.forall_mem_append.1 hw
    rw [← List.append_assoc, squeeze_concat, if_pos (hc c (by simp)), ih hw, List.map_append,
      List.append_assoc]
    rfl

/-- A sign after a run adds an underscore. -/
theorem squeeze_append_run_sign {w : List Char} (hw : IsRun w) {c : Char}
    (hc : c.isAlphanum = false) (cs : List Char) :
    squeeze (cs ++ w ++ [c]) = squeeze cs ++ w.map Char.toUpper ++ ['_'] := by
  rw [squeeze_concat, squeeze_append_run hw.isAlphanum, if_neg (by simp [hc]), if_neg]
  have hne : w.map Char.toUpper ≠ [] := by simpa using hw.ne_nil
  rintro (hnil | hlast)
  · exact hne (List.append_eq_nil_iff.1 hnil).2
  · rw [List.getLast?_append_of_ne_nil _ hne] at hlast
    obtain ⟨a, ha, hupper⟩ := List.mem_map.1 (List.mem_of_getLast? hlast)
    exact (isMacroChar_toUpper (hw.isAlphanum a ha)).2 hupper

/-- A macro that is empty or ends with an underscore is continued by the joined runs. -/
theorem squeeze_append_eq {cs : List Char}
    (h : squeeze cs = [] ∨ (squeeze cs).getLast? = some '_') (ds : List Char) :
    squeeze (cs ++ ds) = squeeze cs ++ joined ds := by
  induction ds using run_induction generalizing cs with
  | nil => simp [joined, runs]
  | sign d ds hd ih =>
    have hsame : squeeze (cs ++ [d]) = squeeze cs := by
      rw [squeeze_concat, if_neg (by simp [hd]), if_pos h]
    rw [List.append_cons, ih (by rwa [hsame]), hsame, joined_sign hd]
  | run w hw => rw [squeeze_append_run hw.isAlphanum, joined_run hw]
  | run_sign w d ds hw hd ih =>
    have hnext := squeeze_append_run_sign hw hd cs
    have hclosed : (squeeze (cs ++ w ++ [d])).getLast? = some '_' := by
      rw [hnext, List.getLast?_concat]
    rw [← List.append_assoc, List.append_cons, ih (.inr hclosed), hnext, joined_run_sign hw hd]
    simp

/-- What is squeezed character by character is what is joined run by run. -/
theorem squeeze_eq_joined (cs : List Char) : squeeze cs = joined cs := by
  have hempty : squeeze [] = [] := rfl
  have hall := squeeze_append_eq (.inl hempty) cs
  rwa [hempty, List.nil_append, List.nil_append] at hall

theorem ofNames_eq_canonical (namespaceName fileName : String) :
    ofNames namespaceName fileName = canonical (source namespaceName fileName) := by
  unfold ofNames canonical
  rw [squeeze_eq_joined]
  simp only [← joined_eq_nil_iff]
  cases joined (source namespaceName fileName).toList with
  | nil => rfl
  | cons first rest => simp

/-! ### Reserved names -/

theorem Squeezed.not_infix {cs : List Char} (h : Squeezed cs) : ¬ ['_', '_'] <:+: cs := by
  rintro ⟨before, after, rfl⟩
  have hapart := h.apart
  rw [List.append_assoc] at hapart
  have hpair := (List.isChain_append.1 hapart).2.1
  exact (List.isChain_cons_cons.1 hpair).1 rfl rfl

theorem IsMacroName.isKeyword_eq_false {name : String} (h : IsMacroName name) :
    Cpp.isKeyword name = false := by
  have hsmall : ∀ keyword ∈ Cpp.keywords, keyword.toList.head?.any Char.isUpper = false := by
    decide
  obtain ⟨c, hc, hupper⟩ := h.head_isUpper
  refine Bool.eq_false_iff.2 fun hkeyword => ?_
  have hfirst := hsmall name (List.contains_iff_mem.1 hkeyword)
  rw [hc, Option.any_some, hupper] at hfirst
  cases hfirst

end Guard

/-- Whatever the texts of namespace and file name are, the guard is the canonical macro of its
source: a capital letter and then capital letters, digits and single underscores, no reserved
word, and the guard of a file with just this name outside of namespaces. -/
theorem Settings.guard_eq_canonical (s : Settings) :
    s.guard = Guard.canonical
      (if s.namespaceName = "" then s.metadata.fileName
        else s.namespaceName ++ "_" ++ s.metadata.fileName) ∧
    (∃ first rest, s.guard.toList = first :: rest ∧ first.isUpper = true) ∧
    (∀ c ∈ s.guard.toList, c.isUpper = true ∨ c.isDigit = true ∨ c = '_') ∧
    ¬ ['_', '_'] <:+: s.guard.toList ∧
    Cpp.isKeyword s.guard = false ∧
    { s with namespaceName := "", metadata := { s.metadata with fileName := s.guard } }.guard =
      s.guard := by
  have hname : Guard.IsMacroName s.guard := Guard.isMacroName_ofNames _ _
  refine ⟨?_, ?_, fun c hc => ?_, hname.squeezed.not_infix, hname.isKeyword_eq_false,
    Guard.ofNames_of_isMacroName hname⟩
  · simp only [← String.isEmpty_iff]
    exact Guard.ofNames_eq_canonical _ _
  · obtain ⟨first, hfirst, hupper⟩ := hname.head_isUpper
    obtain ⟨rest, hrest⟩ := List.head?_eq_some_iff.1 hfirst
    exact ⟨first, rest, hrest, hupper⟩
  · simpa [Guard.isMacroChar, or_assoc] using hname.squeezed.chars c hc

example : Guard.canonical "_net_2d--mesh.h" = "NET_2D_MESH_H" ∧
    Guard.canonical "2d.h++" = "HEADER_2D_H_" ∧ Guard.canonical "++" = "HEADER" := by
  decide

end NodeHeader
