/-
  The comment at the top of a header.

  Five texts describe a header: title, copyright line, file name, description and
  version. They are pasted into one block comment, so a text fits only if it keeps
  to its line and does not end the comment.
-/
import NodeHeader.Text.Blank

namespace NodeHeader

/-- What the comment at the top of a header says. -/
structure Metadata where
  title : String := "Dargon Programming Language"
  copyright : String := "(C) Kyle Morris 2023 - See LICENSE.txt for license information"
  /-- The name of the header file; the include guard is made from it. -/
  fileName : String := "Expr.h"
  description : String := "Expressions."
  /-- The version that first had the header. -/
  version : String := "v0.1"
deriving DecidableEq, Repr

/-- Whether the end of a block comment stands somewhere in the characters. -/
def holdsCommentEnd : List Char → Bool
  | '*' :: '/' :: _ => true
  | _ :: rest => holdsCommentEnd rest
  | [] => false

/-- Whether a text fits on one line of a block comment. -/
def fitsCommentLine (text : String) : Bool :=
  !text.toList.contains '\n' && !text.toList.contains '\r' && !holdsCommentEnd text.toList

/-- Whether a text holds nothing but blanks. -/
def isBlankText (text : String) : Bool :=
  Text.isAllBlank text.toList

/-- The lines of the comment. -/
def Metadata.comment (m : Metadata) : List String :=
  ["/*",
   " * " ++ m.title,
   " * " ++ m.copyright,
   " *",
   " * FILE: " ++ m.fileName,
   " *",
   " * DESCRIPTION: " ++ m.description,
   " *",
   " * SINCE: " ++ m.version,
   " *",
   " */"]

end NodeHeader
