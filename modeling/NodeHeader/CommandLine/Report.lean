/-
  The report of a failed run.

  A report says what was attempted and then lists the causes, each the cause of
  the one before it. A single cause is indented; several are numbered from 0. A
  text of more than one line keeps its indentation on each of them.
-/
import NodeHeader.Header.Generation

namespace NodeHeader

/-- The texts of a refusal and of what caused it, outermost first. -/
def DefinitionError.causes (e : DefinitionError) : List String :=
  e.message ::
    match e with
    | .invalid _ _ cause => [cause.message]
    | .unreadable cause => [cause.message]
    | .malformedEntry .. | .malformedField .. | .noFields .. | .repeatedNode .. => []

/-- The texts of an error and of what caused it, outermost first. -/
def GenerationError.causes (e : GenerationError) : List String :=
  e.message ::
    match e with
    | .definitions cause => cause.causes
    | .unwritable _ cause => [cause.message]
    | .badSetting .. | .conflict .. => []

namespace CommandLine.Report

/-- A text with something before its first line and something before each further one. -/
def indented (first further text : String) : String :=
  first ++ String.ofList
    ((text.toList.map fun c => if c = '\n' then '\n' :: further.toList else [c]).flatten)

/-- A number at the right end of five columns. -/
def column (n : Nat) : String :=
  let digits := toString n
  String.ofList (List.replicate (5 - digits.length) ' ') ++ digits

/-- The causes, each starting on a new line. -/
def causeLines : List String → List String
  | [] => []
  | [only] => [indented "    " "    " only]
  | several => several.zipIdx.map fun (cause, n) => indented (column n ++ ": ") "       " cause

/-- The report on an attempt. -/
def text (attempt : String) (causes : List String) : String :=
  "Error: " ++ attempt ++ "\n\nCaused by:\n" ++
    String.join ((causeLines causes).map (· ++ "\n"))

end CommandLine.Report

end NodeHeader
