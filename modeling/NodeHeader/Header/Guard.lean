/-
  Include guards.

  The macro that guards a header is made from its namespace and file name: the
  letters and digits of ASCII in upper case, with a single underscore for
  whatever stands between or after them. Underscores at the start and in a row are
  reserved, so there are none; a macro that would be empty or start with a digit
  gets the word `HEADER`.
-/
import NodeHeader.Header.Settings

namespace NodeHeader

namespace Guard

/-- The macro so far, last character first, after one more character of the source. -/
def extend (reversed : List Char) (c : Char) : List Char :=
  if c.isAlphanum then c.toUpper :: reversed
  else
    match reversed with
    | [] => []
    | '_' :: _ => reversed
    | _ => '_' :: reversed

/-- The letters and digits of a source in upper case, with what is between them squeezed. -/
def squeeze (source : List Char) : List Char :=
  (source.foldl extend []).reverse

/-- The text that the macro is made from. -/
def source (namespaceName fileName : String) : String :=
  if namespaceName.isEmpty then fileName else namespaceName ++ "_" ++ fileName

/-- The macro of a namespace and a file name. -/
def ofNames (namespaceName fileName : String) : String :=
  match squeeze (source namespaceName fileName).toList with
  | [] => "HEADER"
  | first :: rest =>
    if first.isDigit then "HEADER_" ++ String.ofList (first :: rest)
    else String.ofList (first :: rest)

/-- The lines that open the guarded part of a header. -/
def opening (guard : String) : List String :=
  ["#ifndef " ++ guard, "#define " ++ guard]

/-- The line that closes it. -/
def closing (guard : String) : String :=
  "#endif // " ++ guard

end Guard

/-- The macro that guards a header of these settings. -/
def Settings.guard (s : Settings) : String :=
  Guard.ofNames s.namespaceName s.metadata.fileName

end NodeHeader
