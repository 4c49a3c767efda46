/-
  Entries: the written form of a node.

  An entry is `Name: type name, type name, …`. The name is all that stands before
  the first colon, so types may hold colons; commas separate the fields, and each
  field is exactly two words. Blanks around names, types, commas and colons do not
  matter.

  An entry is judged from left to right and refused with the first fault: its
  shape before the colon, then field by field, then the node as a whole.
-/
import NodeHeader.Definition.Node
import NodeHeader.Files.Fault
import NodeHeader.Text.Blank

namespace NodeHeader

/-- Why definitions are refused. Lines count from 1, and an entry is shown without the
blanks around it. -/
inductive DefinitionError where
  /-- An entry without a name and a colon. -/
  | malformedEntry (line : Nat) (entry : String)
  /-- A field, counted from 0, that is not two words. -/
  | malformedField (line : Nat) (entry : String) (position : Nat) (field : String)
  /-- An entry with nothing after its colon. -/
  | noFields (line : Nat) (entry : String)
  /-- A name that an earlier entry has, and the line of that entry. -/
  | repeatedNode (line : Nat) (name : String) (firstLine : Nat)
  /-- An entry that breaks a rule of fields and nodes. -/
  | invalid (line : Nat) (entry : String) (cause : DeclarationError)
  | unreadable (cause : Files.Fault)
deriving DecidableEq, Repr

/-- The wording of a refusal. -/
def DefinitionError.message : DefinitionError → String
  | malformedEntry line entry =>
    "line " ++ toString line ++ ": malformed entry '" ++ entry ++
      "', expected 'Name: type name, ...'"
  | malformedField line entry position field =>
    "line " ++ toString line ++ ": malformed field #" ++ toString position ++ " '" ++ field ++
      "' in entry '" ++ entry ++ "'"
  | noFields line entry =>
    "line " ++ toString line ++ ": entry '" ++ entry ++ "' declares no fields"
  | repeatedNode line name firstLine =>
    "line " ++ toString line ++ ": duplicate node '" ++ name ++ "', first defined on line " ++
      toString firstLine
  | invalid line entry cause =>
    "line " ++ toString line ++ ": " ++ cause.message ++ " in entry '" ++ entry ++ "'"
  | unreadable cause => "IO error: " ++ cause.message

/-- An entry and the line it is reported under. -/
structure Entry where
  /-- The line, or the position in a list of entries, counted from 1. -/
  line : Nat
  text : String
deriving DecidableEq, Repr

namespace Entry

/-- The entry without the blanks around it, as errors show it. -/
def trimmed (e : Entry) : String :=
  String.ofList (Text.trim e.text.toList)

/-- What stands before the first colon and what stands after it. -/
def cutAtColon (cs : List Char) : Option (List Char × List Char) :=
  match cs.dropWhile (· ≠ ':') with
  | [] => none
  | _ :: after => some (cs.takeWhile (· ≠ ':'), after)

/-- The field that a piece between two commas spells. -/
def parseField (e : Entry) (position : Nat) (piece : List Char) : Except DefinitionError Field :=
  match Text.words piece with
  | [typeName, name] =>
    (Field.make (String.ofList typeName) (String.ofList name)).mapError (.invalid e.line e.trimmed)
  | _ => .error (.malformedField e.line e.trimmed position (String.ofList (Text.trim piece)))

/-- The fields of the pieces, the first of them at a position. -/
def parseFields (e : Entry) : Nat → List (List Char) → Except DefinitionError (List Field)
  | _, [] => .ok []
  | position, piece :: rest => do
    let field ← parseField e position piece
    let fields ← parseFields e (position + 1) rest
    return field :: fields

/-- The node that an entry spells. -/
def parse (e : Entry) : Except DefinitionError Node :=
  match cutAtColon (Text.trim e.text.toList) with
  | none => .error (.malformedEntry e.line e.trimmed)
  | some (name, body) =>
    if Text.isAllBlank name then .error (.malformedEntry e.line e.trimmed)
    else if Text.isAllBlank body then .error (.noFields e.line e.trimmed)
    else do
      let fields ← parseFields e 0 (body.splitOn ',')
      (Node.make (String.ofList (Text.trim name)) fields).mapError (.invalid e.line e.trimmed)

end Entry

end NodeHeader
