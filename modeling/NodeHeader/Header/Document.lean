/-
  Documents.

  A document is a list of lines; its text ends every line, the last one too, with
  a line feed.
-/
import NodeHeader.Text.Utf8

namespace NodeHeader

/-- A finished text, line by line. -/
structure Document where
  /-- The lines, without their ends. -/
  lines : List String
deriving DecidableEq, Repr

namespace Document

/-- The number of lines. -/
def length (d : Document) : Nat :=
  d.lines.length

/-- The text of the document. -/
def text (d : Document) : String :=
  String.join (d.lines.map (· ++ "\n"))

/-- The bytes of the document in a file. -/
def bytes (d : Document) : Text.Bytes :=
  Text.encode d.text

end Document

end NodeHeader
