/-
  Headers from files and to files.

  Definitions are read from a file of a tree, and a header is written to one. The
  whole header is put together before the output is touched, so input and output
  may be the same file. An operation that writes gives the tree that it leaves
  beside its traced result.
-/
import NodeHeader.Files.Replacement
import NodeHeader.Header.Generation

namespace NodeHeader

open NodeHeader.Files (Fault Interference Path Temporaries Tree textOf)
open NodeHeader.Text (Bytes)

/-! ### Reading -/

/-- The table that the contents of a file define, or the fault that kept them from being
read. -/
def Table.ofContents (source : Path) (contents : Except Fault Bytes) :
    Traced DefinitionError Table := do
  let text ← .ofExcept ((contents.bind textOf).mapError .unreadable)
  .tell (.definitionsRead source)
  Table.ofText text

/-- The table that a file defines. -/
def Table.ofFile (t : Tree) (source : Path) (interference : Interference := {}) :
    Traced DefinitionError Table :=
  Table.ofContents source (t.read source interference)

/-- The header of a file of definitions. -/
def Header.ofFile (t : Tree) (source : Path) (o : Options) (interference : Interference := {}) :
    Traced GenerationError Document :=
  Header.ofReading (Table.ofFile t source interference) o

/-! ### Writing -/

/-- What is told about contents written to a path, which may have led to a regular file. -/
def writeEvents (replaced : Bool) (target : Path) (contents : Bytes) : List Event :=
  (if replaced then [.fileReplaced target] else []) ++ [.fileWritten contents.length target]

/-- Replaces a file by contents as a whole. -/
def writeAtomic (T : Temporaries) (t : Tree) (target : Path) (contents : Bytes)
    (interference : Interference := {}) : Tree × Traced GenerationError Unit :=
  match t.replace T target contents interference with
  | (t', .error fault) => (t', .fail (.unwritable target fault))
  | (t', .ok ()) =>
    (t', ⟨writeEvents (t.fileMode? target interference).isSome target contents, .ok ()⟩)

/-- Writes a document to a file. -/
def Document.writeTo (d : Document) (T : Temporaries) (t : Tree) (target : Path)
    (interference : Interference := {}) : Tree × Traced GenerationError Unit :=
  writeAtomic T t target d.bytes interference

/-- Writes a document to a file as soon as it is there, and gives it back. -/
def writeWhenDone (T : Temporaries) (document : Traced GenerationError Document) (t : Tree)
    (target : Path) (interference : Interference := {}) :
    Tree × Traced GenerationError Document :=
  match document.result with
  | .error _ => (t, document)
  | .ok d =>
    let (t', written) := d.writeTo T t target interference
    (t', do
      let d ← document
      written
      return d)

/-- Generates the header of a file of definitions to another file. -/
def Header.toFile (T : Temporaries) (t : Tree) (source target : Path) (o : Options)
    (interference : Interference := {}) : Tree × Traced GenerationError Document :=
  writeWhenDone T (Header.ofFile t source o interference) t target interference

end NodeHeader
