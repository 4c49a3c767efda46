/-
  Which conflict of names is reported.

  `Conflict.Clashes` says with what the name of a node can be in conflict. A node may clash with
  several rivals, and several nodes may clash; `Conflict.IsFirst` picks the first of these nodes
  and, for that node, the rival of the least rank. The search for a conflict finds exactly this one
  (`Conflict.first?_eq_some_iff`), and both the check of names and the header end with it
  (`Table.check_reports_first_conflict`).

  The search looks at a node with all rivals before it goes on to the next node. It is therefore
  settled for one node first (`Conflict.ofNode?_eq_some_iff`): a node that clashes has a conflict,
  and no other than the one with its first rival.
-/
import NodeHeader.Proofs.Header.Conflict

namespace NodeHeader

/-- The place of a rival in the order in which rivals are looked at. -/
def Rival.rank : Rival → Nat
  | baseType => 0
  | visitorInterface => 1
  | enclosingNode => 2

theorem Rival.rank_injective : Function.Injective rank := by
  intro r r' h
  cases r <;> cases r' <;> simp_all [rank]

namespace Conflict

/-! ### One node -/

/-- What the name of a node is in conflict with: the base type, the visitor interface where there
is a visitor, or a field of the node. -/
inductive Clashes (s : Settings) (n : Node) : Rival → Prop
  | baseType (h : n.name = s.base) : Clashes s n .baseType
  | visitorInterface {v : Visitor} (hv : s.visitor = some v) (h : n.name = s.base ++ "Visitor") :
    Clashes s n .visitorInterface
  | enclosingNode {f : Field} (hf : f ∈ n.fields) (h : f.name = n.name) :
    Clashes s n .enclosingNode

/-- The node clashes with the rival, and with none that is looked at before it. -/
structure FirstRival (s : Settings) (n : Node) (r : Rival) : Prop where
  clashes : Clashes s n r
  rank_le : ∀ r', Clashes s n r' → r.rank ≤ r'.rank

variable {s : Settings} {n : Node} {r r' : Rival}

theorem FirstRival.unique (h : FirstRival s n r) (h' : FirstRival s n r') : r' = r :=
  Rival.rank_injective (Nat.le_antisymm (h'.rank_le r h.clashes) (h.rank_le r' h'.clashes))

theorem ofNode?_eq_none_iff_clashes : ofNode? s n = none ↔ ∀ r, ¬ Clashes s n r := by
  rw [ofNode?_eq_none_iff]
  constructor
  · rintro ⟨hbase, hvisitor, hfield⟩ r (h | ⟨hv, h⟩ | ⟨hf, h⟩)
    · exact hbase h
    · exact hvisitor (by rw [hv]; rfl) h
    · exact hfield (h ▸ List.mem_map_of_mem hf)
  · intro h
    refine ⟨fun hbase => h _ (.baseType hbase), fun hv hname => ?_, fun hmem => ?_⟩
    · obtain ⟨v, hv⟩ := Option.isSome_iff_exists.1 hv
      exact h _ (.visitorInterface hv hname)
    · obtain ⟨f, hf, hname⟩ := List.mem_map.1 hmem
      exact h _ (.enclosingNode hf hname)

theorem firstRival_of_ofNode? {c : Conflict} (h : ofNode? s n = some c) :
    c.name = n.name ∧ FirstRival s n c.rival := by
  unfold ofNode? at h
  -- one case for each rival; those before it were looked at and do not clash
  split at h
  · next hbase =>
    obtain rfl := Option.some.inj h
    exact ⟨rfl, .baseType hbase, fun r _ => Nat.zero_le _⟩
  next hbase =>
  split at h
  · next hvisitor =>
    obtain rfl := Option.some.inj h
    rw [Bool.and_eq_true, decide_eq_true_eq] at hvisitor
    obtain ⟨v, hv⟩ := Option.isSome_iff_exists.1 hvisitor.1
    refine ⟨rfl, .visitorInterface hv hvisitor.2, ?_⟩
    rintro r (h | _ | _)
    · exact absurd h hbase
    · exact Nat.le_refl 1
    · exact Nat.le_succ 1
  next hvisitor =>
  split at h
  · next hfield =>
    obtain rfl := Option.some.inj h
    obtain ⟨f, hf, hname⟩ := List.mem_map.1 (List.contains_iff_mem.1 hfield)
    refine ⟨rfl, .enclosingNode hf hname, ?_⟩
    rintro r (h | ⟨hv, h⟩ | _)
    · exact absurd h hbase
    · rw [Bool.and_eq_true, decide_eq_true_eq] at hvisitor
      exact absurd ⟨by rw [hv]; rfl, h⟩ hvisitor
    · exact Nat.le_refl 2
  · cases h

/-- A node is in conflict with the first rival that it clashes with. -/
theorem ofNode?_eq_some_iff {c : Conflict} :
    ofNode? s n = some c ↔ c.name = n.name ∧ FirstRival s n c.rival := by
  refine ⟨firstRival_of_ofNode?, fun ⟨hname, hfirst⟩ => ?_⟩
  cases h : ofNode? s n with
  | none => exact absurd hfirst.clashes (ofNode?_eq_none_iff_clashes.1 h _)
  | some c' =>
    obtain ⟨hname', hfirst'⟩ := firstRival_of_ofNode? h
    have hc : c' = c := by
      cases c
      cases c'
      simp only [Conflict.mk.injEq]
      exact ⟨hname'.trans hname.symm, hfirst.unique hfirst'⟩
    rw [hc]

/-! ### The nodes of a table -/

/-- The conflict of the first node that clashes with a rival, with its first rival. -/
def IsFirst (s : Settings) (nodes : List Node) (c : Conflict) : Prop :=
  ∃ before n after, nodes = before ++ n :: after ∧ (∀ m ∈ before, ∀ r, ¬ Clashes s m r) ∧
    c.name = n.name ∧ FirstRival s n c.rival

theorem first?_eq_some_iff {nodes : List Node} {c : Conflict} :
    first? s nodes = some c ↔ IsFirst s nodes c := by
  simp only [first?, List.findSome?_eq_some_iff, ofNode?_eq_some_iff, ofNode?_eq_none_iff_clashes]
  constructor
  · rintro ⟨before, n, after, hnodes, ⟨hname, hfirst⟩, hbefore⟩
    exact ⟨before, n, after, hnodes, hbefore, hname, hfirst⟩
  · rintro ⟨before, n, after, hnodes, hbefore, hname, hfirst⟩
    exact ⟨before, n, after, hnodes, ⟨hname, hfirst⟩, hbefore⟩

end Conflict

namespace Table

theorem check_eq_error_iff {t : Table} {s : Settings} {err : GenerationError} :
    t.check s = .error err ↔ ∃ c, err = .conflict c ∧ Conflict.IsFirst s t.toList c := by
  simp only [← Conflict.first?_eq_some_iff]
  unfold check
  cases Conflict.first? s t.toList with
  | none => exact iff_of_false nofun nofun
  | some c =>
    constructor
    · intro h
      exact ⟨c, (Except.error.inj h).symm, rfl⟩
    · rintro ⟨c', rfl, hc⟩
      rw [Option.some.inj hc]

theorem exists_check_error_iff {t : Table} {s : Settings} :
    (∃ err, t.check s = .error err) ↔ ∃ n ∈ t.toList, ∃ r, Conflict.Clashes s n r := by
  have hok : (∃ err, t.check s = .error err) ↔ ¬ t.check s = .ok () := by
    cases t.check s with
    | error err => exact iff_of_true ⟨err, rfl⟩ nofun
    | ok u => exact iff_of_false nofun (fun h => h rfl)
  rw [hok, check_eq_ok_iff]
  simp only [Conflict.ofNode?_eq_none_iff_clashes, Classical.not_forall, Classical.not_not,
    exists_prop]

theorem result_header_eq_error_iff {t : Table} {o : Options} {err : GenerationError} :
    (t.header o).result = .error err ↔ t.check o.toSettings = .error err := by
  rw [result_header]
  cases t.check o.toSettings with
  | error err' =>
    constructor
    · intro h
      rw [Except.error.inj h]
    · intro h
      rw [Except.error.inj h]
      rfl
  | ok u => exact iff_of_false nofun nofun

/-- A header that is written is told of. -/
theorem events_header_eq_nil_iff {t : Table} {o : Options} :
    (t.header o).events = [] ↔ ∃ err, t.check o.toSettings = .error err := by
  unfold check
  cases hc : Conflict.first? o.toSettings t.toList with
  | some c =>
    rw [header_eq_of_conflict hc]
    exact iff_of_true rfl ⟨_, rfl⟩
  | none =>
    rw [header_eq_of_no_conflict hc, headerEvents]
    exact iff_of_false (by simp) nofun

/-- The check of names fails exactly if a node has the name of the base type, or that of the
visitor interface where there is a visitor, or that of one of its fields. The error is then the
conflict of the first such node, and of its rivals the base type comes before the visitor interface
and this before the node's own field. There is no header exactly if the check fails, with the same
error, and nothing is told of it then. -/
theorem check_reports_first_conflict (t : Table) (o : Options) :
    ((∃ err, t.check o.toSettings = .error err) ↔
      ∃ n ∈ t.toList, ∃ r, Conflict.Clashes o.toSettings n r) ∧
    (∀ err, t.check o.toSettings = .error err ↔
      ∃ c, err = .conflict c ∧ Conflict.IsFirst o.toSettings t.toList c) ∧
    (∀ err, (t.header o).result = .error err ↔ t.check o.toSettings = .error err) ∧
    ((t.header o).events = [] ↔ ∃ err, t.check o.toSettings = .error err) ∧
    (∀ c, (GenerationError.conflict c).message =
      "name '" ++ c.name ++ "' conflicts with the " ++ c.rival.label) ∧
    Rival.baseType.label = "base type" ∧ Rival.visitorInterface.label = "visitor interface" ∧
      Rival.enclosingNode.label = "enclosing node" :=
  ⟨exists_check_error_iff, fun _ => check_eq_error_iff, fun _ => result_header_eq_error_iff,
    events_header_eq_nil_iff, fun _ => rfl, rfl, rfl, rfl⟩

/-- The first node is in conflict with its field, and the second one with the base type and with
its field. -/
example : (Header.ofList ["A: int A", "Expr: int Expr"] Options.default).result =
    .error (.conflict ⟨"A", .enclosingNode⟩) := by
  cbv

end Table

end NodeHeader
