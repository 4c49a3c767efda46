/-
  The structs of a header.

  Every node becomes a struct that derives from the base type: a constant field
  for each field of the node, and a constructor with one parameter for each of
  them. With a visitor there is also an interface with one method per node, the
  base type gets an abstract `Accept`, and every node overrides it with a call of
  its own method.
-/
import NodeHeader.Cpp.Struct
import NodeHeader.Definition.Node
import NodeHeader.Header.Settings

namespace NodeHeader.Header

open NodeHeader.Cpp (Member Parameter Struct)

/-! ### Names -/

/-- The name of the visitor interface of a base type. -/
def visitorName (base : String) : String :=
  base ++ "Visitor"

/-- The name of the interface's method for a node. -/
def visitName (node : String) : String :=
  "Visit" ++ node

/-- The name of the method by which a node accepts a visitor. -/
def acceptName : String := "Accept"

/-- The parameter of that method. -/
def visitorParameter (base : String) : Parameter :=
  { typeName := visitorName base ++ "&", name := "visitor" }

/-! ### The visitor interface -/

/-- The line that announces each node, in order. -/
def forwardDeclarations (nodes : List Node) : List String :=
  nodes.map fun n => Struct.forward n.name

/-- The interface's method for a node. -/
def visitMethod (v : Visitor) (n : Node) : Member :=
  .pureMethod v.returnType (visitName n.name) { typeName := n.name ++ "&", name := "node" }

/-- The visitor interface, with one method per node in order. -/
def visitorInterface (base : String) (nodes : List Node) (v : Visitor) : Struct where
  brief := some ("Visitor over every " ++ base ++ " node.")
  name := visitorName base
  members := .destructor (visitorName base) :: nodes.map (visitMethod v)

/-! ### The base type -/

/-- The members that the base type has for a visitor. -/
def baseMembers (base : String) (v : Visitor) : List Member :=
  [.destructor base, .pureMethod v.returnType acceptName (visitorParameter base)]

/-- The base type. Without a visitor it has no members. -/
def baseStruct (base : String) (v : Option Visitor) : Struct where
  brief := some ("The base class of all " ++ base ++ " nodes.")
  name := base
  members := v.elim [] (baseMembers base)

/-! ### Nodes -/

/-- The statement by which a node calls its method of the visitor. -/
def visitCall (v : Visitor) (n : Node) : String :=
  (if v.returnsVoid then "" else "return ") ++ "visitor." ++ visitName n.name ++ "(*this);"

/-- The definition of `Accept` in a node. -/
def acceptOverride (base : String) (v : Visitor) (n : Node) : Member :=
  .override v.returnType acceptName (visitorParameter base) (visitCall v n)

/-- The parameters of a node's constructor: its fields, in order. -/
def parameters (n : Node) : List Parameter :=
  n.fields.map fun f => { typeName := f.typeName, name := f.name }

/-- The struct of a node. -/
def nodeStruct (base : String) (v : Option Visitor) (n : Node) : Struct where
  name := n.name
  parent := some base
  members :=
    n.fields.map (fun f => .field f.typeName f.name) ++
      .constructor n.name (parameters n) :: v.toList.map fun v => acceptOverride base v n

end NodeHeader.Header
