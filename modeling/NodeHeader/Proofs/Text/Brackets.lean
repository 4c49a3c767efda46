/-
  Brackets that nest.

  A text is scanned with the stack of the brackets that are open, parentheses and braces
  (`Brackets.run`). What is open at the start does not matter to a text that gets by without it
  (`Brackets.run_append_right`), so a text is balanced if it leaves nothing open where nothing was
  open (`Brackets.Balanced`).

  Lines nest if each is balanced, or opens a brace that a later line closes, with nested lines
  between (`Brackets.Nested`). Wherever nested lines are cut, only braces of their own are open
  (`Brackets.Nested.exists_runLines`).
-/
import Mathlib.Data.List.Basic

namespace NodeHeader.Brackets

/-! ### The scan -/

/-- Whether the character is a bracket that is scanned. -/
def isBracket (c : Char) : Bool :=
  c = '(' || c = ')' || c = '\x7b' || c = '\x7d'

theorem forall_isBracket {p : Char → Prop} :
    (∀ b, isBracket b = true → p b) ↔ p '(' ∧ p ')' ∧ p '\x7b' ∧ p '\x7d' := by
  simp only [isBracket, Bool.or_eq_true, decide_eq_true_eq, or_imp, forall_and, forall_eq,
    and_assoc]

/-- The bracket that a closing bracket closes. -/
def opener? : Char → Option Char
  | ')' => some '('
  | '\x7d' => some '\x7b'
  | _ => none

/-- The open brackets after one more character, the innermost first. There is no such stack if
the character closes a bracket that is not the innermost one. -/
def step (opened : List Char) (c : Char) : Option (List Char) :=
  match opener? c with
  | some b => if opened.head? = some b then some opened.tail else none
  | none => some (if c = '(' ∨ c = '\x7b' then c :: opened else opened)

/-- The open brackets after a text. -/
def run (opened : List Char) (cs : List Char) : Option (List Char) :=
  cs.foldlM step opened

/-- The open brackets after lines. -/
def runLines (opened : List Char) (lines : List String) : Option (List Char) :=
  run opened (lines.flatMap String.toList)

variable {opened opened' : List Char}

theorem run_cons (opened : List Char) (c : Char) (cs : List Char) :
    run opened (c :: cs) = (step opened c).bind fun o => run o cs := rfl

theorem run_append (opened cs ds : List Char) :
    run opened (cs ++ ds) = (run opened cs).bind fun o => run o ds :=
  List.foldlM_append

theorem runLines_cons (opened : List Char) (line : String) (rest : List String) :
    runLines opened (line :: rest) = (run opened line.toList).bind fun o => runLines o rest := by
  rw [runLines, List.flatMap_cons, run_append]
  rfl

theorem runLines_append (opened : List Char) (lines lines' : List String) :
    runLines opened (lines ++ lines') =
      (runLines opened lines).bind fun o => runLines o lines' := by
  rw [runLines, List.flatMap_append, run_append]
  rfl

/-- A step that is possible leaves alone what is open further out. -/
theorem step_append_right {c : Char} (h : step opened c = some opened') (outer : List Char) :
    step (opened ++ outer) c = some (opened' ++ outer) := by
  unfold step at h ⊢
  split at h
  · next b hb =>
    split at h
    · next hhead =>
      obtain rfl := Option.some.inj h
      cases opened with
      | nil => cases hhead
      | cons first rest =>
        have hfirst : (first :: rest ++ outer).head? = some b := hhead
        rw [if_pos hfirst]
        rfl
    · cases h
  · next hc =>
    obtain rfl := Option.some.inj h
    split <;> rfl

theorem run_append_right {cs : List Char} (h : run opened cs = some opened') (outer : List Char) :
    run (opened ++ outer) cs = some (opened' ++ outer) := by
  induction cs generalizing opened with
  | nil =>
    obtain rfl := Option.some.inj h
    rfl
  | cons c rest ih =>
    -- the stack after the first character is that of the inner text, with `outer` below it
    rw [run_cons, Option.bind_eq_some_iff] at h
    obtain ⟨next, hstep, hrest⟩ := h
    rw [run_cons, step_append_right hstep]
    exact ih hrest

/-- A text with a stack at its end has one everywhere. -/
theorem exists_run_of_isPrefix {cs ds : List Char} (h : run opened ds = some opened')
    (hstart : cs <+: ds) : ∃ middle, run opened cs = some middle := by
  obtain ⟨rest, rfl⟩ := hstart
  rw [run_append, Option.bind_eq_some_iff] at h
  obtain ⟨middle, hmiddle, -⟩ := h
  exact ⟨middle, hmiddle⟩

/-! ### Balanced texts -/

/-- Each bracket of a text is closed in it, and nothing else is. -/
def Balanced (text : String) : Prop :=
  run [] text.toList = some []

instance (text : String) : Decidable (Balanced text) :=
  inferInstanceAs (Decidable (_ = _))

theorem Balanced.run {text : String} (h : Balanced text) (opened : List Char) :
    run opened text.toList = some opened :=
  run_append_right h opened

theorem Balanced.append {a b : String} (ha : Balanced a) (hb : Balanced b) : Balanced (a ++ b) := by
  rw [Balanced, String.toList_append, run_append, ha.run]
  exact hb.run []

theorem step_of_isBracket_eq_false {c : Char} (h : isBracket c = false) (opened : List Char) :
    step opened c = some opened := by
  simp only [isBracket, Bool.or_eq_false_iff, decide_eq_false_iff_not] at h
  obtain ⟨⟨⟨hopen, hclose⟩, hopen'⟩, hclose'⟩ := h
  have hopener : opener? c = none := by
    unfold opener?
    split
    · exact absurd rfl hclose
    · exact absurd rfl hclose'
    · rfl
  rw [step, hopener]
  simp only [hopen, hopen', or_self, if_false]

/-- A text without brackets is balanced. -/
theorem balanced_of_not_mem {text : String} (h : ∀ b, isBracket b = true → b ∉ text.toList) :
    Balanced text := by
  have hnone : ∀ c ∈ text.toList, isBracket c = false := fun c hc =>
    Bool.eq_false_iff.2 fun hbracket => h c hbracket hc
  rw [Balanced]
  generalize text.toList = cs at hnone
  induction cs with
  | nil => rfl
  | cons c rest ih =>
    rw [List.forall_mem_cons] at hnone
    rw [run_cons, step_of_isBracket_eq_false hnone.1]
    exact ih hnone.2

/-- Balanced texts with a parenthesis between: what the ending of the whole leaves open is open
after the whole. -/
theorem run_parenthesis {front inner ending : String} (hfront : Balanced front)
    (hinner : Balanced inner) {opened' : List Char}
    (hending : run ['('] ending.toList = some opened') :
    run [] (front ++ "(" ++ inner ++ ending).toList = some opened' := by
  have hopen : run [] "(".toList = some ['('] := rfl
  rw [String.toList_append, String.toList_append, String.toList_append, run_append, run_append,
    run_append, hfront, Option.bind_some, hopen, Option.bind_some, hinner.run, Option.bind_some,
    hending]

theorem run_ending {front ending : String} (hfront : Balanced front) {opened' : List Char}
    (hending : run [] ending.toList = some opened') :
    run [] (front ++ ending).toList = some opened' := by
  rw [String.toList_append, run_append, hfront, Option.bind_some, hending]

/-! ### Nested lines -/

/-- A line that opens a brace, and nothing else. -/
def Opens (line : String) : Prop :=
  run [] line.toList = some ['\x7b']

/-- A line that closes a brace, and nothing else. -/
def Closes (line : String) : Prop :=
  run ['\x7b'] line.toList = some []

theorem Opens.run {line : String} (h : Opens line) (opened : List Char) :
    run opened line.toList = some ('\x7b' :: opened) :=
  run_append_right h opened

theorem Closes.run {line : String} (h : Closes line) (opened : List Char) :
    run ('\x7b' :: opened) line.toList = some opened :=
  run_append_right h opened

/-- Lines of which each is balanced, or opens a brace that a later line closes, with nested lines
between. -/
inductive Nested : List String → Prop where
  | nil : Nested []
  | line {text : String} {rest : List String} (htext : Balanced text) (hrest : Nested rest) :
    Nested (text :: rest)
  | block {first last : String} {body rest : List String} (hfirst : Opens first)
    (hbody : Nested body) (hlast : Closes last) (hrest : Nested rest) :
    Nested (first :: (body ++ last :: rest))

namespace Nested

variable {lines lines' : List String}

theorem append (h : Nested lines) (h' : Nested lines') : Nested (lines ++ lines') := by
  induction h with
  | nil => exact h'
  | line htext _ ih => exact .line htext ih
  | block hfirst hbody hlast _ _ ih =>
    rw [List.cons_append, List.append_assoc, List.cons_append]
    exact .block hfirst hbody hlast ih

theorem of_forall_balanced (h : ∀ line ∈ lines, Balanced line) : Nested lines := by
  induction lines with
  | nil => exact .nil
  | cons line rest ih =>
    rw [List.forall_mem_cons] at h
    exact .line h.1 (ih h.2)

theorem flatMap {α : Type} {f : α → List String} {l : List α} (h : ∀ a ∈ l, Nested (f a)) :
    Nested (l.flatMap f) := by
  induction l with
  | nil => exact .nil
  | cons a rest ih =>
    rw [List.forall_mem_cons] at h
    exact h.1.append (ih h.2)

/-- Nested lines leave open what was open. -/
theorem runLines (h : Nested lines) (opened : List Char) : runLines opened lines = some opened := by
  induction h generalizing opened with
  | nil => rfl
  | line htext _ ih =>
    rw [runLines_cons, htext.run]
    exact ih opened
  | block hfirst _ hlast _ ihbody ihrest =>
    rw [runLines_cons, hfirst.run, Option.bind_some, runLines_append, ihbody, Option.bind_some,
      runLines_cons, hlast.run]
    exact ihrest opened

/-- Wherever nested lines are cut, some braces of their own are open, and no parentheses. -/
theorem exists_runLines (h : Nested lines) {front : List String} (hfront : front <+: lines) :
    ∃ own, (∀ b ∈ own, b = '\x7b') ∧
      ∀ opened, Brackets.runLines opened front = some (own ++ opened) := by
  induction h generalizing front with
  | nil =>
    obtain rfl := List.prefix_nil.1 hfront
    exact ⟨[], List.forall_mem_nil _, fun _ => rfl⟩
  | line htext _ ih =>
    obtain rfl | ⟨others, rfl, hothers⟩ := List.prefix_cons_iff.1 hfront
    · exact ⟨[], List.forall_mem_nil _, fun _ => rfl⟩
    · obtain ⟨own, hown, hrun⟩ := ih hothers
      refine ⟨own, hown, fun opened => ?_⟩
      rw [runLines_cons, htext.run]
      exact hrun opened
  | @block _ last body rest hfirst hbody hlast _ ihbody ihrest =>
    obtain rfl | ⟨others, rfl, hothers⟩ := List.prefix_cons_iff.1 hfront
    · exact ⟨[], List.forall_mem_nil _, fun _ => rfl⟩
    rcases List.prefix_or_prefix_of_prefix hothers (List.prefix_append body _) with
      hinside | ⟨behind, rfl⟩
    · -- the brace is open on top of what is open in the body
      obtain ⟨own, hown, hrun⟩ := ihbody hinside
      refine ⟨own ++ ['\x7b'], List.forall_mem_append.2 ⟨hown, by simp⟩, fun opened => ?_⟩
      rw [runLines_cons, hfirst.run, Option.bind_some, hrun, List.append_assoc]
      rfl
    · have hbehind := (List.prefix_append_right_inj body).1 hothers
      obtain rfl | ⟨tail, rfl, htail⟩ := List.prefix_cons_iff.1 hbehind
      · refine ⟨['\x7b'], by simp, fun opened => ?_⟩
        rw [List.append_nil, runLines_cons, hfirst.run, Option.bind_some, hbody.runLines]
        rfl
      · -- the brace is closed again
        obtain ⟨own, hown, hrun⟩ := ihrest htail
        refine ⟨own, hown, fun opened => ?_⟩
        rw [runLines_cons, hfirst.run, Option.bind_some, runLines_append, hbody.runLines,
          Option.bind_some, runLines_cons, hlast.run]
        exact hrun opened

/-- Wherever the text of nested lines is cut, what was open is still open. -/
theorem exists_run (h : Nested lines) {cs : List Char} (hcs : cs <+: lines.flatMap String.toList) :
    ∃ own, ∀ opened, run opened cs = some (own ++ opened) := by
  obtain ⟨own, hown⟩ := exists_run_of_isPrefix (h.runLines []) hcs
  exact ⟨own, run_append_right hown⟩

end Nested

/-- Nested lines that are together one line or one pair of braces. -/
inductive Enclosed : List String → Prop where
  | line {text : String} (htext : Balanced text) : Enclosed [text]
  | block {first last : String} {body : List String} (hfirst : Opens first) (hbody : Nested body)
    (hlast : Closes last) : Enclosed (first :: (body ++ [last]))

namespace Enclosed

variable {lines : List String}

theorem nested (h : Enclosed lines) : Nested lines := by
  cases h with
  | line htext => exact .line htext .nil
  | block hfirst hbody hlast => exact .block hfirst hbody hlast .nil

/-- Until its last line something of it is open. -/
theorem exists_runLines_ne_nil (h : Enclosed lines) {front : List String} (hfront : front <+: lines)
    (hne : front ≠ []) (hne' : front ≠ lines) :
    ∃ own, own ≠ [] ∧ ∀ opened, runLines opened front = some (own ++ opened) := by
  cases h with
  | line htext =>
    obtain rfl | ⟨others, rfl, hothers⟩ := List.prefix_cons_iff.1 hfront
    · exact absurd rfl hne
    · exact absurd (congrArg _ (List.prefix_nil.1 hothers)) hne'
  | @block first last body hfirst hbody hlast =>
    obtain rfl | ⟨others, rfl, hothers⟩ := List.prefix_cons_iff.1 hfront
    · exact absurd rfl hne
    have hinside : others <+: body := by
      rcases List.prefix_concat_iff.1 hothers with rfl | hinside
      · exact absurd rfl hne'
      · exact hinside
    obtain ⟨own, -, hrun⟩ := hbody.exists_runLines hinside
    refine ⟨own ++ ['\x7b'], by simp, fun opened => ?_⟩
    rw [runLines_cons, hfirst.run, Option.bind_some, hrun, List.append_assoc]
    rfl

end Enclosed

end NodeHeader.Brackets
