/-
  The texts that the structs of a header are written from.

  A struct is written from names, types and fixed words, pasted together. A property that these
  have in common, and that is inherited by what is pasted together (`Header.Common`), therefore
  holds of every text that the structs of a header are written from
  (`Header.forall_mem_texts_structs`).
-/
import NodeHeader.Proofs.Header.DeclaredNames
import NodeHeader.Proofs.Header.Options

namespace NodeHeader

open NodeHeader.Cpp (Member Struct)

/-! ### Properties of pasted texts -/

/-- A property that the empty text has, and two texts put together if each of them has it. -/
structure Inherited (P : String → Prop) : Prop where
  empty : P ""
  append : ∀ {a b : String}, P a → P b → P (a ++ b)

/-- What is inherited by two texts put together is inherited by a list of texts with a separator. -/
theorem Inherited.intercalate {P : String → Prop} (hP : Inherited P) {separator : String}
    (hs : P separator) {texts : List String} (h : ∀ text ∈ texts, P text) :
    P (separator.intercalate texts) := by
  induction texts with
  | nil => exact hP.empty
  | cons text rest ih =>
    have htext : P text := h text List.mem_cons_self
    have hrest : P (separator.intercalate rest) := ih fun t ht => h t (List.mem_cons_of_mem text ht)
    cases rest with
    | nil => simpa using htext
    | cons next others =>
      rw [String.intercalate_cons_cons]
      exact hP.append (hP.append htext hs) hrest

/-! ### Structs -/

namespace Cpp

/-- The texts that a member is written from. -/
def Member.texts : Member → List String
  | .field typeName name => [typeName, name]
  | .constructor struct parameters =>
    struct :: parameters.flatMap fun p => [p.typeName, p.name]
  | .destructor struct => [struct]
  | .pureMethod returnType name p => [returnType, name, p.typeName, p.name]
  | .override returnType name p statement => [returnType, name, p.typeName, p.name, statement]

/-- The texts that a struct is written from. -/
def Struct.texts (s : Struct) : List String :=
  s.brief.toList ++ s.name :: s.parent.toList ++ s.members.flatMap Member.texts

end Cpp

/-! ### The structs of a header -/

namespace Header

/-- The words with which structs are written, whatever the names are. -/
def fixedWords : List String :=
  ["&", "(*this);", "Accept", "The base class of all ", "Visit", "Visitor", "Visitor over every ",
   " node.", " nodes.", "node", "return ", "visitor", "visitor."]

/-- A property that names, types and the fixed words have in common, and that is inherited by what
is pasted together from these. -/
structure Common (P : String → Prop) : Prop extends Inherited P where
  fixed : ∀ word ∈ fixedWords, P word
  identifier : ∀ name, Cpp.isIdentifier name = true → P name
  type : ∀ typeName, Cpp.isTypeName typeName = true → P typeName

namespace Common

variable {P : String → Prop} (hP : Common P)

include hP

theorem reference {name : String} (h : P name) : P (name ++ "&") :=
  hP.append h (hP.fixed "&" (by decide))

theorem visitName (n : Node) : P (visitName n.name) :=
  hP.append (hP.fixed "Visit" (by decide)) (hP.identifier n.name n.isIdentifier_name)

/-- A call is pasted together whether or not its value is returned. -/
theorem visitCall (v : Visitor) (n : Node) : P (visitCall v n) := by
  unfold Header.visitCall
  refine hP.append (hP.append (hP.append ?_ (hP.fixed "visitor." (by decide))) (hP.visitName n))
    (hP.fixed "(*this);" (by decide))
  split
  · exact hP.empty
  · exact hP.fixed "return " (by decide)

/-- The parameters of a constructor are the fields of the node, so their types and names have been
checked. -/
theorem parameters (n : Node) :
    ∀ text ∈ (parameters n).flatMap fun p => [p.typeName, p.name], P text := by
  intro text htext
  simp only [Header.parameters, List.flatMap_map, List.mem_flatMap, List.mem_cons,
    List.not_mem_nil, or_false] at htext
  obtain ⟨f, -, rfl | rfl⟩ := htext
  · exact hP.type f.typeName f.isTypeName_typeName
  · exact hP.identifier f.name f.isIdentifier_name

variable {base : String} (hbase : Cpp.isIdentifier base = true)

include hbase

theorem visitorName : P (visitorName base) :=
  hP.append (hP.identifier base hbase) (hP.fixed "Visitor" (by decide))

theorem texts_visitorInterface {v : Visitor} (hv : Cpp.isTypeName v.returnType = true)
    (nodes : List Node) : ∀ text ∈ (visitorInterface base nodes v).texts, P text := by
  have hbrief : P ("Visitor over every " ++ base ++ " node.") :=
    hP.append (hP.append (hP.fixed "Visitor over every " (by decide)) (hP.identifier base hbase))
      (hP.fixed " node." (by decide))
  have hname : P (Header.visitorName base) := hP.visitorName hbase
  have hmethods : ∀ text ∈ (nodes.map (visitMethod v)).flatMap Member.texts, P text := by
    intro text htext
    simp only [List.flatMap_map, List.mem_flatMap, visitMethod, Member.texts, List.mem_cons,
      List.not_mem_nil, or_false] at htext
    obtain ⟨n, -, rfl | rfl | rfl | rfl⟩ := htext
    · exact hP.type v.returnType hv
    · exact hP.visitName n
    · exact hP.reference (hP.identifier n.name n.isIdentifier_name)
    · exact hP.fixed "node" (by decide)
  simp only [Struct.texts, visitorInterface, Option.toList_some, Option.toList_none,
    List.flatMap_cons, List.forall_mem_append, List.forall_mem_cons, Member.texts]
  exact ⟨⟨⟨hbrief, List.forall_mem_nil _⟩, hname, List.forall_mem_nil _⟩,
    ⟨hname, List.forall_mem_nil _⟩, hmethods⟩

variable {visitor : Option Visitor}
  (hv : ∀ v, visitor = some v → Cpp.isTypeName v.returnType = true)

include hv

theorem texts_accept {v : Visitor} (h : visitor = some v) :
    ∀ text ∈ [v.returnType, acceptName, (visitorParameter base).typeName,
      (visitorParameter base).name], P text := by
  simp only [List.forall_mem_cons]
  exact ⟨hP.type v.returnType (hv v h), hP.fixed "Accept" (by decide),
    hP.reference (hP.visitorName hbase), hP.fixed "visitor" (by decide), List.forall_mem_nil _⟩

theorem texts_baseStruct : ∀ text ∈ (baseStruct base visitor).texts, P text := by
  have hname : P base := hP.identifier base hbase
  have hbrief : P ("The base class of all " ++ base ++ " nodes.") :=
    hP.append (hP.append (hP.fixed "The base class of all " (by decide)) hname)
      (hP.fixed " nodes." (by decide))
  have hmembers : ∀ text ∈ (baseStruct base visitor).members.flatMap Member.texts, P text := by
    cases h : visitor with
    | none => exact List.forall_mem_nil _
    | some v => exact List.forall_mem_cons.2 ⟨hname, hP.texts_accept hbase hv h⟩
  simp only [Struct.texts, List.forall_mem_append, List.forall_mem_cons]
  exact ⟨⟨List.forall_mem_singleton.2 hbrief, hname, List.forall_mem_nil _⟩, hmembers⟩

/-- The struct of a node: its fields, its constructor, and the override if there is a visitor. -/
theorem texts_nodeStruct (n : Node) : ∀ text ∈ (nodeStruct base visitor n).texts, P text := by
  have hname : P n.name := hP.identifier n.name n.isIdentifier_name
  have hfields : ∀ text ∈ (n.fields.map fun f => Member.field f.typeName f.name).flatMap
      Member.texts, P text := by
    have hsame : (n.fields.map fun f => Member.field f.typeName f.name).flatMap Member.texts =
        (Header.parameters n).flatMap fun p => [p.typeName, p.name] := by
      rw [Header.parameters, List.flatMap_map, List.flatMap_map]
      rfl
    exact hsame ▸ hP.parameters n
  have hoverride : ∀ text ∈ (visitor.toList.map fun v => acceptOverride base v n).flatMap
      Member.texts, P text := by
    cases h : visitor with
    | none => exact List.forall_mem_nil _
    | some v =>
      exact List.forall_mem_append.2 ⟨List.forall_mem_append.2
        ⟨hP.texts_accept hbase hv h, List.forall_mem_singleton.2 (hP.visitCall v n)⟩,
        List.forall_mem_nil _⟩
  simp only [Struct.texts, nodeStruct, Option.toList_none, Option.toList_some,
    List.flatMap_append, List.flatMap_cons, List.forall_mem_append, List.forall_mem_cons,
    Member.texts]
  exact ⟨⟨List.forall_mem_nil _, hname, hP.identifier base hbase, List.forall_mem_nil _⟩, hfields,
    ⟨hname, hP.parameters n⟩, hoverride⟩

end Common

/-- A common property holds of all texts that the structs of a header are written from. -/
theorem forall_mem_texts_structs {P : String → Prop} (hP : Common P) (o : Options)
    (nodes : List Node) : ∀ c ∈ structs o.toSettings nodes, ∀ text ∈ c.texts, P text := by
  have hbase : Cpp.isIdentifier o.base = true := o.isIdentifier_base
  have hv : ∀ v, o.visitor = some v → Cpp.isTypeName v.returnType = true := fun v hvisitor =>
    o.isTypeName_returnType hvisitor
  intro c hc
  simp only [structs, List.mem_append, List.mem_cons, List.mem_map, Option.mem_toList] at hc
  rcases hc with ⟨v, hvisitor, rfl⟩ | rfl | ⟨n, -, rfl⟩
  · exact hP.texts_visitorInterface hbase (hv v hvisitor) nodes
  · exact hP.texts_baseStruct hbase hv
  · exact hP.texts_nodeStruct hbase hv n

end Header

end NodeHeader
