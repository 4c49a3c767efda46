/-
  Paths.

  A path is a sequence of bytes in which slashes separate names. It need not be
  text, so it is shown with replacement characters where it is none.

  Two readings of a path are kept apart. Its `steps` are what is walked from
  directory to directory, "." and ".." included, with a final "." for a slash at
  the end, since such a path must lead to a directory. Its `components` leave
  every "." out; their last is the name of the file. The path is cut before that
  component for the directory that the file is put into, which is otherwise
  spelled as in the path.
-/
import NodeHeader.Text.Utf8

namespace NodeHeader.Files

open NodeHeader.Text (Bytes)

/-- A name between two slashes. -/
abbrev Name := Bytes

/-- The byte of a slash. -/
def slash : UInt8 := 0x2F

/-- The name of a directory within itself. -/
def selfName : Name := [0x2E]

/-- The name of a directory's parent within the directory. -/
def parentName : Name := [0x2E, 0x2E]

/-- The greatest length of a name, in bytes. -/
def Name.maxLength : Nat := 255

/-- A path, relative to the working directory or absolute. -/
structure Path where
  bytes : Bytes
deriving DecidableEq, Repr

namespace Path

/-- The path that a text spells. -/
def ofString (s : String) : Path :=
  ⟨Text.encode s⟩

/-- The path as it is shown. -/
def display (p : Path) : String :=
  Text.decodeLossy p.bytes

/-- The length from which on a path is refused as a whole, in bytes. -/
def lengthLimit : Nat := 4096

/-- Whether the path starts at the root directory. -/
def isAbsolute (p : Path) : Bool :=
  p.bytes.head? = some slash

/-- Whether the path ends in a slash. -/
def endsInSlash (p : Path) : Bool :=
  p.bytes.getLast? = some slash

/-- The names between the slashes. -/
def names (p : Path) : List Name :=
  (p.bytes.splitOn slash).filter (!·.isEmpty)

/-- The names to walk along. A slash at the end stands for one step more, into the
directory itself. -/
def steps (p : Path) : List Name :=
  p.names ++ if p.endsInSlash then [selfName] else []

/-- The names without those of a directory within itself. -/
def components (p : Path) : List Name :=
  p.names.filter (· ≠ selfName)

/-- The last component, unless it leads upwards. -/
def fileName? (p : Path) : Option Name :=
  p.components.getLast?.filter (· ≠ parentName)

/-- Whether what stands between two slashes is no component. -/
def isTrivial (piece : Name) : Bool :=
  piece.isEmpty || piece = selfName

/-- The path of the directory that holds the last component: what is spelled before that
component, without slashes and "." at its end. It is the working directory or the root if
nothing else is left, and the working directory if there is no component. -/
def directory (p : Path) : Path :=
  match (p.bytes.splitOn slash).reverse.dropWhile isTrivial with
  | [] => ⟨selfName⟩
  | _ :: before =>
    match before.dropWhile isTrivial with
    | [] => if p.isAbsolute then ⟨[slash]⟩ else ⟨selfName⟩
    | kept => ⟨List.intercalate [slash] kept.reverse⟩

end Path

end NodeHeader.Files
