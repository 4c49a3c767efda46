/-
  Invocations: what the arguments ask for.

  A request holds what a command line sets, each setting with the value that is given or
  that holds by default. The invocation that it amounts to names the files and has the
  settings of the header.
-/
import NodeHeader.Builtin
import NodeHeader.CommandLine.Parser
import NodeHeader.Files.Path

namespace NodeHeader.CommandLine

open NodeHeader.Files (Path)
open NodeHeader.Text (Bytes)

/-! ### Requests -/

/-- What a command line sets. -/
structure Request where
  /-- The definitions file; the built-in table if there is none. -/
  defs : Option Path
  /-- The file that the header is written to. -/
  out : Path
  /-- Whether the header is printed instead. -/
  stdout : Bool
  base : String
  namespaceName : String
  includes : List String
  title : Option String
  copyright : Option String
  description : Option String
  since : Option String
  visitor : Bool
  visitorReturn : String
deriving DecidableEq, Repr

namespace Matches

/-- The path of an option. -/
def path? (found : Matches) (v : Valued) : Option Path :=
  (found.values v).head?.map Files.Path.mk

/-- The text of an option. -/
def text? (found : Matches) (v : Valued) : Option String :=
  (found.values v).head?.bind Text.decode?

/-- All texts of an option, in order. -/
def texts (found : Matches) (v : Valued) : List String :=
  (found.values v).filterMap Text.decode?

end Matches

/-- A value that has to be there. -/
def required {α : Type} : Option α → Except Usage α
  | some value => .ok value
  | none => .error .missingRequiredArgument

/-- What is found on a command line as a request. -/
def Request.ofMatches (found : Matches) : Except Usage Request := do
  let out ← required (found.path? .out)
  let base ← required (found.text? .base)
  let namespaceName ← required (found.text? .namespaceName)
  let visitorReturn ← required (found.text? .visitorReturn)
  return {
    defs := found.path? .defs
    out
    stdout := found.flag .stdout
    base
    namespaceName
    includes := found.texts .addInclude
    title := found.text? .title
    copyright := found.text? .copyright
    description := found.text? .description
    since := found.text? .since
    visitor := found.flag .visitor
    visitorReturn }

/-- What arguments request. -/
def Request.read (P : Parser) (arguments : List Bytes) : Except Usage Request := do
  let found ← P.parse arguments
  Request.ofMatches found

/-! ### Invocations -/

/-- What the program is asked to do. -/
structure Invocation where
  /-- The definitions file; the built-in table if there is none. -/
  defs : Option Path
  /-- The file that the header is written to. -/
  out : Path
  /-- Whether the header is printed instead. -/
  stdout : Bool
  /-- What the header is written with. -/
  settings : Settings
deriving DecidableEq, Repr

namespace Request

/-- The comment at the top: what is given, and the name of the output file. -/
def metadata (r : Request) : Metadata :=
  let default : Metadata := {}
  { title := r.title.getD default.title
    copyright := r.copyright.getD default.copyright
    fileName := (r.out.fileName?.map Text.decodeLossy).getD default.fileName
    description := r.description.getD default.description
    version := r.since.getD default.version }

/-- The settings: what is requested, and besides the included headers of the built-in table or,
for definitions from a file, the usual ones. The type that the visitor returns counts only if
there is a visitor. -/
def settings (r : Request) : Settings :=
  let start : Settings := if r.defs.isNone then Builtin.settings else {}
  { base := r.base
    namespaceName := r.namespaceName
    includes := start.includes ++ r.includes
    metadata := r.metadata
    visitor := if r.visitor then some { returnType := r.visitorReturn } else none }

/-- What a request amounts to. -/
def invocation (r : Request) : Invocation where
  defs := r.defs
  out := r.out
  stdout := r.stdout
  settings := r.settings

end Request

/-- What the arguments ask for. -/
def Invocation.read (P : Parser) (arguments : List Bytes) : Except Usage Invocation :=
  (Request.read P arguments).map Request.invocation

end NodeHeader.CommandLine
