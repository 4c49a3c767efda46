/-
  The lines of a text.

  A line ends at a line feed, and a carriage return directly before that line
  feed belongs to the line end. Nothing else ends a line, and a line feed at the
  very end of the text opens no further line.
-/

namespace NodeHeader.Text

/-- A line without the carriage return that may stand at its end. -/
def dropReturn (line : List Char) : List Char :=
  if line.getLast? = some '\r' then line.dropLast else line

/-- The lines of a text, without their ends. Every piece but the last was ended by a line
feed; the last one is a line only if it holds something. -/
def lines (cs : List Char) : List (List Char) :=
  let pieces := cs.splitOn '\n'
  pieces.dropLast.map dropReturn ++ pieces.getLast?.toList.filter (!·.isEmpty)

end NodeHeader.Text
