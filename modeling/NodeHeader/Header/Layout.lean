/-
  The layout of a header.

  A header is a sequence of paragraphs, each followed by an empty line, and then
  the lines that close the namespace and the guard. The paragraphs are the comment
  with the guard, the includes, the opening of the namespace, the announcements of
  the nodes, the visitor interface, the base type, and one paragraph for each
  node; a paragraph that has no lines is left out together with its empty line.
-/
import NodeHeader.Definition.Table
import NodeHeader.Header.Guard
import NodeHeader.Header.Structs

namespace NodeHeader.Header

/-- The line that includes each header, in order. -/
def includeLines (includes : List String) : List String :=
  includes.map ("#include " ++ ·)

/-- The opening of the namespace, if there is one. -/
def namespaceOpening (namespaceName : String) : List String :=
  if namespaceName.isEmpty then [] else ["namespace " ++ namespaceName ++ " \x7b"]

/-- The line that closes the namespace, if there is one. -/
def namespaceClosing (namespaceName : String) : List String :=
  if namespaceName.isEmpty then [] else ["\x7d // namespace " ++ namespaceName]

/-- The paragraphs before those of the nodes. -/
def opening (s : Settings) (nodes : List Node) : List (List String) :=
  [s.metadata.comment ++ Guard.opening s.guard,
   includeLines s.includes,
   namespaceOpening s.namespaceName,
   s.visitor.elim [] fun _ => forwardDeclarations nodes,
   s.visitor.elim [] fun v => (visitorInterface s.base nodes v).lines,
   (baseStruct s.base s.visitor).lines]

/-- The paragraph of a node. -/
def nodeParagraph (s : Settings) (n : Node) : List String :=
  (nodeStruct s.base s.visitor n).lines

/-- The paragraphs of a header, some of them perhaps without lines. -/
def paragraphs (s : Settings) (nodes : List Node) : List (List String) :=
  opening s nodes ++ nodes.map (nodeParagraph s)

/-- A paragraph with its empty line, or nothing if it has no lines. -/
def spaced (paragraph : List String) : List String :=
  if paragraph.isEmpty then [] else paragraph ++ [""]

/-- The lines after the paragraphs. -/
def closing (s : Settings) : List String :=
  namespaceClosing s.namespaceName ++ [Guard.closing s.guard]

/-- The lines of a header. -/
def lines (s : Settings) (nodes : List Node) : List String :=
  (paragraphs s nodes).flatMap spaced ++ closing s

end NodeHeader.Header
