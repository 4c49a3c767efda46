/-
  Nodes as plain data.

  What a node holds beside its proofs is a name and a list of pairs of texts, a type and a
  name for each field (`Node.pairs`). `WellNamed` says which of these data are those of a
  node (`Node.wellNamed`, `WellNamed.exists_node`). `Field.make` and `Node.make` succeed exactly
  on their own data (`Field.make_eq_ok_iff`, `Node.make_eq_ok_iff`).
-/
import NodeHeader.Definition.Node
import NodeHeader.Proofs.Traced
import Mathlib.Data.List.Basic

namespace NodeHeader

/-! ### Fields -/

namespace Field

/-- The type and the name of a field. -/
def pair (f : Field) : String × String :=
  (f.typeName, f.name)

/-- The field of a type and a name that are accepted. -/
theorem make_eq_ok_iff {typeName name : String} {f : Field} :
    make typeName name = .ok f ↔ f.pair = (typeName, name) := by
  constructor
  · intro h
    obtain ⟨⟨hname⟩, -, h⟩ := Except.bind_eq_ok_iff.1 h
    dsimp only at h
    split at h
    · obtain rfl := Except.ok.inj h
      rfl
    · cases h
  · intro h
    obtain ⟨rfl, rfl⟩ := Prod.mk.inj h
    rw [make, checkName_of_isIdentifier _ f.isIdentifier_name]
    exact dif_pos f.isTypeName_typeName

end Field

/-! ### Nodes -/

namespace Node

/-- The types and names of the fields of a node, in declaration order. -/
def pairs (n : Node) : List (String × String) :=
  n.fields.map Field.pair

/-- The node of a name and fields that are accepted. -/
theorem make_eq_ok_iff {name : String} {fields : List Field} {n : Node} :
    make name fields = .ok n ↔ n.name = name ∧ n.fields = fields := by
  constructor
  · intro h
    obtain ⟨⟨hname⟩, -, h⟩ := Except.bind_eq_ok_iff.1 h
    dsimp only at h
    split at h
    · cases h
    · split at h
      · cases h
      · obtain rfl := Except.ok.inj h
        exact ⟨rfl, rfl⟩
  · rintro ⟨rfl, rfl⟩
    have hrepeat : firstRepeat? [] (n.fields.map Field.name) = none :=
      firstRepeat?_eq_none_iff.2 ⟨n.nodup_fields, by simp⟩
    rw [make, checkName_of_isIdentifier _ n.isIdentifier_name]
    refine (dif_neg n.fields_ne_nil).trans ?_
    split
    · next field hfield => rw [hrepeat] at hfield; cases hfield
    · rfl

end Node

/-- A name and pairs of types and names that make up a node. -/
structure WellNamed (name : String) (pairs : List (String × String)) : Prop where
  isIdentifier_name : Cpp.isIdentifier name = true
  pairs_ne_nil : pairs ≠ []
  isTypeName_fst : ∀ p ∈ pairs, Cpp.isTypeName p.1 = true
  isIdentifier_snd : ∀ p ∈ pairs, Cpp.isIdentifier p.2 = true
  nodup_snd : (pairs.map Prod.snd).Nodup

/-- The data of a node are well named. -/
theorem Node.wellNamed (n : Node) : WellNamed n.name n.pairs where
  isIdentifier_name := n.isIdentifier_name
  pairs_ne_nil := by simpa [pairs] using n.fields_ne_nil
  isTypeName_fst := by
    intro p hp
    obtain ⟨f, -, rfl⟩ := List.mem_map.1 hp
    exact f.isTypeName_typeName
  isIdentifier_snd := by
    intro p hp
    obtain ⟨f, -, rfl⟩ := List.mem_map.1 hp
    exact f.isIdentifier_name
  nodup_snd := by
    have h : n.pairs.map Prod.snd = n.fields.map Field.name := by
      simp [pairs, Field.pair, Function.comp_def]
    rw [h]
    exact n.nodup_fields

/-- Pairs of accepted types and names are those of fields. -/
theorem exists_fields {pairs : List (String × String)}
    (ht : ∀ p ∈ pairs, Cpp.isTypeName p.1 = true) (hn : ∀ p ∈ pairs, Cpp.isIdentifier p.2 = true) :
    ∃ fields : List Field, fields.map Field.pair = pairs := by
  induction pairs with
  | nil => exact ⟨[], rfl⟩
  | cons p rest ih =>
    obtain ⟨fields, rfl⟩ := ih (fun q hq => ht q (List.mem_cons_of_mem p hq))
      (fun q hq => hn q (List.mem_cons_of_mem p hq))
    exact ⟨⟨p.1, p.2, ht p List.mem_cons_self, hn p List.mem_cons_self⟩ :: fields, rfl⟩

/-- Well-named data are those of a node. -/
theorem WellNamed.exists_node {name : String} {pairs : List (String × String)}
    (h : WellNamed name pairs) : ∃ n : Node, n.name = name ∧ n.pairs = pairs := by
  obtain ⟨fields, rfl⟩ := exists_fields h.isTypeName_fst h.isIdentifier_snd
  have hnodup : (fields.map Field.name).Nodup := by
    simpa [Field.pair, Function.comp_def] using h.nodup_snd
  exact ⟨⟨name, fields, h.isIdentifier_name, by simpa using h.pairs_ne_nil, hnodup⟩, rfl, rfl⟩

end NodeHeader
