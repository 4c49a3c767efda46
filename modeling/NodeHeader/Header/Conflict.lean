/-
  Conflicts of names.

  A node cannot be named like the base type, nor, where there is a visitor, like
  the visitor interface, nor have a field of its own name. The first node that is
  in conflict is reported, with the first of these three that applies to it.
-/
import NodeHeader.Header.Structs

namespace NodeHeader

/-- What a name is in conflict with. -/
inductive Rival where
  | baseType
  | visitorInterface
  | enclosingNode
deriving DecidableEq, Repr

/-- A rival in the wording of an error. -/
def Rival.label : Rival → String
  | baseType => "base type"
  | visitorInterface => "visitor interface"
  | enclosingNode => "enclosing node"

/-- A name that stands for two things. -/
structure Conflict where
  name : String
  rival : Rival
deriving DecidableEq, Repr

namespace Conflict

/-- The conflict that a node is in, if any. -/
def ofNode? (s : Settings) (n : Node) : Option Conflict :=
  if n.name = s.base then some ⟨n.name, .baseType⟩
  else if s.visitor.isSome && n.name = Header.visitorName s.base then
    some ⟨n.name, .visitorInterface⟩
  else if (n.fields.map Field.name).contains n.name then some ⟨n.name, .enclosingNode⟩
  else none

/-- The conflict of the first node that is in one. -/
def first? (s : Settings) (nodes : List Node) : Option Conflict :=
  nodes.findSome? (ofNode? s)

end Conflict

end NodeHeader
