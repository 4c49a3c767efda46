/-
  Generating a header.

  A header is generated from a table and options. Names are checked first, and
  nothing is written if one of them is in conflict. `Table.header` starts from a
  table, `Header.ofList` and `Header.ofText` from written definitions.
-/
import NodeHeader.Definition.Reading
import NodeHeader.Header.Conflict
import NodeHeader.Header.Document
import NodeHeader.Header.Layout

namespace NodeHeader

/-- Why there is no header. -/
inductive GenerationError where
  | definitions (cause : DefinitionError)
  | unwritable (target : Files.Path) (cause : Files.Fault)
  | badSetting (setting : SettingName) (value : String)
  | conflict (conflict : Conflict)
deriving DecidableEq, Repr

namespace GenerationError

/-- The wording of an error. -/
def message : GenerationError → String
  | definitions cause => "definition parse error: " ++ cause.message
  | unwritable target cause =>
    "cannot write output '" ++ target.display ++ "': " ++ cause.message
  | badSetting setting value =>
    "invalid value '" ++ value ++ "' for option '" ++ setting.label ++ "'"
  | conflict c => "name '" ++ c.name ++ "' conflicts with the " ++ c.rival.label

end GenerationError

/-- Settings as options, with the error of the first setting that is not acceptable. -/
def Settings.toOptions (s : Settings) : Except GenerationError Options :=
  s.build.mapError fun failure => .badSetting failure.setting failure.value

namespace Table

/-- Accepts a table in which no name is in conflict. -/
def check (t : Table) (s : Settings) : Except GenerationError Unit :=
  match Conflict.first? s t.toList with
  | some c => .error (.conflict c)
  | none => .ok ()

/-- What is told about the writing of a header. -/
def headerEvents (t : Table) (s : Settings) : List Event :=
  t.toList.map (fun n => .nodeEmitted n.name s.base n.fields.length) ++
    [.headerAssembled s.metadata.fileName t.size (Header.lines s t.toList).length]

/-- The header of a table. -/
def header (t : Table) (o : Options) : Traced GenerationError Document := do
  .ofExcept (t.check o.toSettings)
  ⟨t.headerEvents o.toSettings, .ok ⟨Header.lines o.toSettings t.toList⟩⟩

/-- The header of a table with all settings but the base type and the comment unchanged. -/
def headerOf (t : Table) (base : String) (metadata : Metadata) :
    Traced GenerationError Document := do
  let options ← .ofExcept ({ base, metadata : Settings }).toOptions
  t.header options

end Table

namespace Header

/-- The header of definitions that are read to a table. -/
def ofReading (reading : Traced DefinitionError Table) (o : Options) :
    Traced GenerationError Document := do
  let table ← reading.mapError .definitions
  table.header o

/-- The header of a list of entries. -/
def ofList (texts : List String) (o : Options) : Traced GenerationError Document :=
  ofReading (Table.ofList texts) o

/-- The header of a text of definitions. -/
def ofText (text : String) (o : Options) : Traced GenerationError Document :=
  ofReading (Table.ofText text) o

end Header

end NodeHeader
