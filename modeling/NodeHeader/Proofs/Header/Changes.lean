/-
  What changes leave of settings.

  Each change replaces one component of settings, except that a header may be added to the included
  ones. So of each other component only the last change counts (`Settings.applyAll_eq`), and of the
  included headers the last list that replaced the others, with the headers added after it
  (`LeavesIncludes`). Changes that agree on these lead from the same settings to the same options,
  or to the same error (`Settings.toOptions_applyAll_congr`): nothing is judged before the end, so
  a value that is not acceptable leaves no trace when it is replaced.
-/
import Mathlib.Data.List.Induction
import NodeHeader.Builtin
import NodeHeader.Proofs.Header.Options

namespace NodeHeader

/-! ### What a change is about -/

/-- A part of settings that changes are about. -/
inductive Component where
  | base
  | namespaceName
  | includes
  | metadata
  | visitor
deriving DecidableEq, Repr

namespace Change

/-- What the change is about. -/
def component : Change → Component
  | .base _ => .base
  | .namespaceName _ => .namespaceName
  | .addInclude _ | .includes _ => .includes
  | .metadata _ => .metadata
  | .visitor _ => .visitor

/-- The base type that the change sets. -/
def base? : Change → Option String
  | .base name => some name
  | _ => none

/-- The namespace that the change sets. -/
def namespaceName? : Change → Option String
  | .namespaceName name => some name
  | _ => none

/-- The header that the change adds. -/
def addedInclude? : Change → Option String
  | .addInclude header => some header
  | _ => none

/-- The headers that the change puts in place of all others. -/
def includes? : Change → Option (List String)
  | .includes headers => some headers
  | _ => none

/-- The texts of the comment that the change sets. -/
def metadata? : Change → Option Metadata
  | .metadata m => some m
  | _ => none

/-- The visitor that the change sets. -/
def visitor? : Change → Option Visitor
  | .visitor v => some v
  | _ => none

end Change

/-- The last of the values that changes set. -/
def lastOf {α : Type} (value? : Change → Option α) (changes : List Change) : Option α :=
  (changes.filterMap value?).getLast?

/-- The headers that changes add, in order. -/
def addedIncludes (changes : List Change) : List String :=
  changes.filterMap Change.addedInclude?

/-- The included headers that changes leave of those at the start: the last list that replaced
them, or those at the start if there is none, and then the headers that were added after it. -/
inductive LeavesIncludes (start : List String) : List Change → List String → Prop
  | replaced {before after : List Change} {headers : List String}
    (hafter : ∀ change ∈ after, change.includes? = none) :
    LeavesIncludes start (before ++ .includes headers :: after) (headers ++ addedIncludes after)
  | kept {changes : List Change} (h : ∀ change ∈ changes, change.includes? = none) :
    LeavesIncludes start changes (start ++ addedIncludes changes)

/-- Two lists of changes agree on what they leave of settings with these included headers. -/
structure LeaveAlike (start : List String) (changes changes' : List Change) : Prop where
  base : lastOf Change.base? changes = lastOf Change.base? changes'
  namespaceName : lastOf Change.namespaceName? changes = lastOf Change.namespaceName? changes'
  includes : ∃ headers, LeavesIncludes start changes headers ∧ LeavesIncludes start changes' headers
  metadata : lastOf Change.metadata? changes = lastOf Change.metadata? changes'
  visitor : lastOf Change.visitor? changes = lastOf Change.visitor? changes'

namespace Settings

variable {s s' : Settings} {changes changes' : List Change} {change last : Change}
  {headers : List String}

theorem applyAll_append (s : Settings) (changes changes' : List Change) :
    s.applyAll (changes ++ changes') = (s.applyAll changes).applyAll changes' :=
  List.foldl_append

theorem applyAll_cons (s : Settings) (change : Change) (changes : List Change) :
    s.applyAll (change :: changes) = (s.apply change).applyAll changes := rfl

theorem eq_of_components (hbase : s.base = s'.base)
    (hnamespace : s.namespaceName = s'.namespaceName) (hincludes : s.includes = s'.includes)
    (hmetadata : s.metadata = s'.metadata) (hvisitor : s.visitor = s'.visitor) : s = s' := by
  cases s
  cases s'
  simp_all

/-! ### The last change counts -/

theorem lastOf_concat {α : Type} (value? : Change → Option α) (changes : List Change)
    (change : Change) :
    lastOf value? (changes ++ [change]) = (value? change).or (lastOf value? changes) := by
  rw [lastOf, List.filterMap_append, List.getLast?_append, lastOf]
  cases h : value? change <;> simp [h]

/-- Each component but the included headers is what the last change about it says. -/
theorem components_applyAll (s : Settings) (changes : List Change) :
    (s.applyAll changes).base = (lastOf Change.base? changes).getD s.base ∧
    (s.applyAll changes).namespaceName =
      (lastOf Change.namespaceName? changes).getD s.namespaceName ∧
    (s.applyAll changes).metadata = (lastOf Change.metadata? changes).getD s.metadata ∧
    (s.applyAll changes).visitor = (lastOf Change.visitor? changes).or s.visitor := by
  induction changes using List.reverseRecOn with
  | nil => exact ⟨rfl, rfl, rfl, rfl⟩
  | append_singleton changes change ih =>
    obtain ⟨hbase, hnamespace, hmetadata, hvisitor⟩ := ih
    simp only [applyAll_append, lastOf_concat]
    cases change with
    | base name => exact ⟨rfl, hnamespace, hmetadata, hvisitor⟩
    | namespaceName name => exact ⟨hbase, rfl, hmetadata, hvisitor⟩
    | addInclude header => exact ⟨hbase, hnamespace, hmetadata, hvisitor⟩
    | includes headers => exact ⟨hbase, hnamespace, hmetadata, hvisitor⟩
    | metadata metadata => exact ⟨hbase, hnamespace, rfl, hvisitor⟩
    | visitor visitor => exact ⟨hbase, hnamespace, hmetadata, rfl⟩

/-- Where the list of headers is not replaced, headers are only added to it. -/
theorem includes_applyAll_of_forall (h : ∀ change ∈ changes, change.includes? = none) :
    (s.applyAll changes).includes = s.includes ++ addedIncludes changes := by
  induction changes generalizing s with
  | nil => exact (List.append_nil _).symm
  | cons change rest ih =>
    have hrest := ih (s := s.apply change) fun c hc => h c (List.mem_cons_of_mem change hc)
    rw [applyAll_cons, hrest]
    cases change with
    | addInclude header => exact List.append_assoc ..
    | includes headers => cases h _ List.mem_cons_self
    | _ => rfl

theorem includes_applyAll (h : LeavesIncludes s.includes changes headers) :
    (s.applyAll changes).includes = headers := by
  cases h with
  | replaced hafter =>
    rw [applyAll_append, applyAll_cons, includes_applyAll_of_forall hafter]
    rfl
  | kept h => exact includes_applyAll_of_forall h

theorem exists_leavesIncludes (start : List String) (changes : List Change) :
    ∃ headers, LeavesIncludes start changes headers := by
  induction changes using List.reverseRecOn with
  | nil => exact ⟨_, .kept (by simp)⟩
  | append_singleton changes change ih =>
    cases hchange : change.includes? with
    | some headers =>
      obtain rfl : change = .includes headers := by
        cases change <;> cases hchange
        rfl
      exact ⟨_, .replaced (by simp)⟩
    | none =>
      obtain ⟨headers, h⟩ := ih
      cases h with
      | @replaced before after headers hafter =>
        refine ⟨headers ++ addedIncludes (after ++ [change]), ?_⟩
        rw [List.append_assoc, List.cons_append]
        exact .replaced (by simpa [or_imp, forall_and, hchange] using hafter)
      | kept h => exact ⟨_, .kept (by simpa [or_imp, forall_and, hchange] using h)⟩

theorem leavesIncludes_iff :
    LeavesIncludes s.includes changes headers ↔ (s.applyAll changes).includes = headers := by
  refine ⟨includes_applyAll, ?_⟩
  rintro rfl
  obtain ⟨headers, h⟩ := exists_leavesIncludes s.includes changes
  rwa [includes_applyAll h]

/-- Changes that leave alike what counts lead to the same settings. -/
theorem applyAll_eq_of_leaveAlike (h : LeaveAlike s.includes changes changes') :
    s.applyAll changes = s.applyAll changes' := by
  obtain ⟨hbase, hnamespace, hmetadata, hvisitor⟩ := components_applyAll s changes
  obtain ⟨hbase', hnamespace', hmetadata', hvisitor'⟩ := components_applyAll s changes'
  obtain ⟨headers, hincludes, hincludes'⟩ := h.includes
  refine eq_of_components ?_ ?_ ?_ ?_ ?_
  · rw [hbase, hbase', h.base]
  · rw [hnamespace, hnamespace', h.namespaceName]
  · rw [includes_applyAll hincludes, includes_applyAll hincludes']
  · rw [hmetadata, hmetadata', h.metadata]
  · rw [hvisitor, hvisitor', h.visitor]

/-! ### Changes in another order, and changes that are lost -/

theorem apply_comm {change' : Change} (h : change.component ≠ change'.component) :
    (s.apply change).apply change' = (s.apply change').apply change := by
  cases change <;> cases change' <;> first | rfl | exact absurd rfl h

/-- Settings are the same but for one component. -/
structure AlikeBeside (c : Component) (s s' : Settings) : Prop where
  base : c ≠ .base → s.base = s'.base
  namespaceName : c ≠ .namespaceName → s.namespaceName = s'.namespaceName
  includes : c ≠ .includes → s.includes = s'.includes
  metadata : c ≠ .metadata → s.metadata = s'.metadata
  visitor : c ≠ .visitor → s.visitor = s'.visitor

theorem alikeBeside_apply (s : Settings) (change : Change) :
    AlikeBeside change.component (s.apply change) s := by
  cases change <;> constructor <;> intro h <;> first | rfl | exact absurd rfl h

theorem AlikeBeside.apply {c : Component} (h : AlikeBeside c s s') (change : Change) :
    AlikeBeside c (s.apply change) (s'.apply change) := by
  cases change with
  | base name => exact { h with base := fun _ => rfl }
  | namespaceName name => exact { h with namespaceName := fun _ => rfl }
  | addInclude header =>
    exact { h with includes := fun hc => congrArg (· ++ [header]) (h.includes hc) }
  | includes headers => exact { h with includes := fun _ => rfl }
  | metadata metadata => exact { h with metadata := fun _ => rfl }
  | visitor visitor => exact { h with visitor := fun _ => rfl }

theorem AlikeBeside.applyAll {c : Component} (h : AlikeBeside c s s') (changes : List Change) :
    AlikeBeside c (s.applyAll changes) (s'.applyAll changes) := by
  induction changes generalizing s s' with
  | nil => exact h
  | cons change rest ih => exact ih (h.apply change)

/-- A change that replaces the component leaves no difference. -/
theorem AlikeBeside.apply_eq (h : AlikeBeside last.component s s')
    (hlast : last.addedInclude? = none) : s.apply last = s'.apply last := by
  obtain ⟨hbase, hnamespace, hincludes, hmetadata, hvisitor⟩ := h
  cases last with
  | base name =>
    exact eq_of_components rfl (hnamespace nofun) (hincludes nofun) (hmetadata nofun)
      (hvisitor nofun)
  | namespaceName name =>
    exact eq_of_components (hbase nofun) rfl (hincludes nofun) (hmetadata nofun) (hvisitor nofun)
  | addInclude header => cases hlast
  | includes headers =>
    exact eq_of_components (hbase nofun) (hnamespace nofun) rfl (hmetadata nofun) (hvisitor nofun)
  | metadata metadata =>
    exact eq_of_components (hbase nofun) (hnamespace nofun) (hincludes nofun) rfl (hvisitor nofun)
  | visitor visitor =>
    exact eq_of_components (hbase nofun) (hnamespace nofun) (hincludes nofun) (hmetadata nofun) rfl

/-- A change is lost if its component is replaced later. -/
theorem applyAll_eq_of_replaced (before between after : List Change)
    (hcomponent : last.component = change.component) (hlast : last.addedInclude? = none) :
    s.applyAll (before ++ change :: between ++ last :: after) =
      s.applyAll (before ++ between ++ last :: after) := by
  have halike : AlikeBeside last.component (((s.applyAll before).apply change).applyAll between)
      ((s.applyAll before).applyAll between) := by
    rw [hcomponent]
    exact (alikeBeside_apply _ change).applyAll between
  simp only [applyAll_append, applyAll_cons]
  rw [halike.apply_eq hlast]

/-- Of any changes of settings only the last base type, namespace, comment and visitor count, and
the last list of included headers with those that were added after it: whatever else was set
before, the options are the same, or the error is. So changes of different components can be
exchanged, a change is lost if its component is replaced later, with whatever value, and headers
that are added after a list are kept in order. -/
theorem toOptions_applyAll_last_changes (s : Settings) :
    (∀ changes changes', LeaveAlike s.includes changes changes' →
      (s.applyAll changes).toOptions = (s.applyAll changes').toOptions) ∧
    (∀ changes headers,
      LeavesIncludes s.includes changes headers ↔ (s.applyAll changes).includes = headers) ∧
    (∀ before change change' after, change.component ≠ change'.component →
      (s.applyAll (before ++ change :: change' :: after)).toOptions =
        (s.applyAll (before ++ change' :: change :: after)).toOptions) ∧
    (∀ before change between last after, last.component = change.component →
      last.addedInclude? = none →
      (s.applyAll (before ++ change :: between ++ last :: after)).toOptions =
        (s.applyAll (before ++ between ++ last :: after)).toOptions) ∧
    ∀ before headers after, (∀ change ∈ after, change.includes? = none) →
      (s.applyAll (before ++ .includes headers :: after)).includes =
        headers ++ addedIncludes after := by
  refine ⟨fun changes changes' h => ?_, fun _ _ => leavesIncludes_iff,
    fun before change change' after h => ?_, fun before change between last after hc hlast => ?_,
    fun before headers after h => includes_applyAll (.replaced h)⟩
  · rw [applyAll_eq_of_leaveAlike h]
  · simp only [applyAll_append, applyAll_cons]
    rw [apply_comm h]
  · rw [applyAll_eq_of_replaced before between after hc hlast]

/-- Values that are not acceptable, and headers added before the list, leave no trace. -/
theorem toOptions_applyAll_builtin : ∃ changes changes' : List Change,
    changes = [.base "my base", .addInclude "<>", .includes ["<a>"], .visitor {},
      .addInclude "<b>", .base "Stmt"] ∧
    changes' = [.base "Stmt", .includes ["b"], .includes ["<a>"], .addInclude "<b>", .visitor {}] ∧
    LeaveAlike Builtin.settings.includes changes changes' ∧
    (Builtin.settings.applyAll changes).toOptions = (Builtin.settings.applyAll changes').toOptions ∧
    (Builtin.settings.applyAll changes).includes = ["<a>", "<b>"] := by
  have halike : LeaveAlike Builtin.settings.includes
      [.base "my base", .addInclude "<>", .includes ["<a>"], .visitor {}, .addInclude "<b>",
        .base "Stmt"]
      [.base "Stmt", .includes ["b"], .includes ["<a>"], .addInclude "<b>", .visitor {}] :=
    { base := rfl
      namespaceName := rfl
      includes := ⟨["<a>", "<b>"], leavesIncludes_iff.2 rfl, leavesIncludes_iff.2 rfl⟩
      metadata := rfl
      visitor := rfl }
  obtain ⟨halikes, -, -, -, hincludes⟩ := toOptions_applyAll_last_changes Builtin.settings
  exact ⟨_, _, rfl, rfl, halike, halikes _ _ halike,
    hincludes [.base "my base", .addInclude "<>"] ["<a>"] _ (by decide)⟩

end Settings

end NodeHeader
