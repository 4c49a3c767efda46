/-
  Reading definitions.

  Definitions are a list of entries, or a text with one entry on a line. In a
  text, blank lines and lines whose first character other than a blank is `#` are
  passed over, and every entry keeps the number of its line. Reading stops at the
  first fault and gives no table then; each accepted entry is told as an event.
-/
import NodeHeader.Definition.Entry
import NodeHeader.Definition.Table
import NodeHeader.Text.Lines
import NodeHeader.Traced

namespace NodeHeader

/-- The character that starts a comment line. -/
def commentMark : Char := '#'

/-! ### Entries in order -/

/-- What is known after some entries: the table so far, and the line on which each name was
defined. -/
structure Reading where
  table : Table := .empty
  lineOf : Std.HashMap String Nat := ∅

namespace Reading

/-- Takes in one entry. A name that was defined before is refused with the line of its first
definition. -/
def step (r : Reading) (e : Entry) : Traced DefinitionError Reading := do
  let node ← .ofExcept e.parse
  match r.lineOf[node.name]? with
  | some firstLine => .fail (.repeatedNode e.line node.name firstLine)
  | none =>
    .tell (.nodeParsed node.name node.fields.length e.line)
    let table ← .ofExcept ((r.table.push node).mapError (.invalid e.line e.trimmed))
    return { table, lineOf := r.lineOf.insert node.name e.line }

/-- Takes in entries, one after another. -/
def run (r : Reading) : List Entry → Traced DefinitionError Reading
  | [] => pure r
  | e :: rest => do
    let r' ← r.step e
    r'.run rest

end Reading

/-- The table that entries define. -/
def Table.ofEntries (entries : List Entry) : Traced DefinitionError Table := do
  let r ← ({} : Reading).run entries
  return r.table

/-! ### Lists and texts -/

/-- The entries of a list, numbered by their positions from 1. -/
def listEntries (texts : List String) : List Entry :=
  (texts.zipIdx 1).map fun (text, line) => { line, text }

/-- Whether a line holds no entry: it is blank, or a comment. -/
def isPassedOver (line : List Char) : Bool :=
  match Text.trim line with
  | [] => true
  | first :: _ => first = commentMark

/-- The entries of a text, numbered by their lines from 1. -/
def textEntries (text : String) : List Entry :=
  (((Text.lines text.toList).zipIdx 1).filter fun (cs, _) => !isPassedOver cs).map
    fun (cs, line) => { line, text := String.ofList cs }

/-- The table that a list of entries defines. -/
def Table.ofList (texts : List String) : Traced DefinitionError Table :=
  Table.ofEntries (listEntries texts)

/-- The table that a text defines. -/
def Table.ofText (text : String) : Traced DefinitionError Table :=
  Table.ofEntries (textEntries text)

end NodeHeader
