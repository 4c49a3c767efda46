/-
  Temporary files.

  Whoever makes temporary files chooses their names. `Temporaries` is what such a maker
  offers, and `Temporaries.Lawful` what it promises: a new file stands under a name that
  nothing had, it takes another place by one renaming, and nothing is left of it once it is
  given up. All that is said about replacing files holds for every maker that keeps this.

  `Temporaries.numbered` is a maker that numbers its files.
-/
import NodeHeader.Files.Walk

namespace NodeHeader.Files

namespace Tree

/-- The permission bits of a new file for which certain bits are asked. -/
def newMode (t : Tree) (asked : Mode) : Mode :=
  asked &&& ~~~t.umask

/-- The tree with the file at a location renamed to what a path names. A file or a link
there gives way. -/
def rename (t : Tree) (source : Location) (target : Path) : Except Fault Tree := do
  let loc ← t.slot target
  if target.endsInSlash then .error .notADirectory
  else
    match t.find? loc, t.find? source with
    | some .directory, _ => .error .isADirectory
    | _, some item => return (t.erase source).set loc item
    | _, none => .error .notFound

end Tree

/-- A maker of temporary files. -/
structure Temporaries where
  /-- Makes an empty file in the directory that a path leads to, with permission bits that are
  asked for. Gives the tree with it and its location. -/
  create : Tree → Path → Mode → Except Fault (Tree × Location)
  /-- Puts the file at a location in the place that a path names. -/
  persist : Tree → Location → Path → Except Fault Tree
  /-- Gives up the file at a location. -/
  discard : Tree → Location → Tree

/-- What a maker of temporary files promises. -/
structure Temporaries.Lawful (T : Temporaries) : Prop where
  /-- A file that is made stands in the directory, where nothing stood before. It is empty, has
  the permission bits that were asked for less those of the umask, and is all that is new. -/
  create_ok {t t' : Tree} {directory : Path} {asked : Mode} {temporary : Location} :
    T.create t directory asked = .ok (t', temporary) →
      (∃ place name, t.locateDirectory (t.start directory) directory.names = .ok place ∧
        temporary = place ++ [name]) ∧
      t.find? temporary = none ∧ t' = t.set temporary (.file (t.newMode asked) [])
  /-- A file takes its place by one renaming, which is done as a whole or not at all. -/
  persist_eq (t : Tree) (temporary : Location) (p : Path) :
    T.persist t temporary p = t.rename temporary p
  /-- A file that is given up is removed. -/
  discard_eq (t : Tree) (temporary : Location) : T.discard t temporary = t.erase temporary

/-! ### Numbered files -/

namespace Temporaries

/-- The name of the temporary file with a number, in six digits. -/
def numberedName (n : Nat) : Name :=
  Text.encode ".tmp" ++
    (List.range 6).reverse.map fun k => UInt8.ofNat (0x30 + n / Nat.pow 10 k % 10)

/-- The length that a slash and the name of a temporary file add to the path of its
directory. -/
def addedLength : Nat := 11

/-- How many names are tried. -/
def attempts : Nat := 65536

/-- The first name with a number below a limit, from the greatest on, that nothing in a
directory has. -/
def unusedName? (t : Tree) (place : Location) : Nat → Option Name
  | 0 => none
  | n + 1 =>
    if (t.find? (place ++ [numberedName n])).isNone then some (numberedName n)
    else unusedName? t place n

/-- A path with that of the working directory in front, unless it is absolute itself. -/
def absolute (t : Tree) (p : Path) : Path :=
  if p.isAbsolute then p else ⟨t.working.flatMap (slash :: ·) ++ slash :: p.bytes⟩

/-- Makes a numbered file. It has an absolute path, so that of the working directory counts
towards the greatest length of a path. -/
def createNumbered (t : Tree) (directory : Path) (asked : Mode) :
    Except Fault (Tree × Location) :=
  if directory.bytes.contains 0 then .error .zeroByte
  else if (absolute t directory).bytes.length + addedLength ≥ Path.lengthLimit then
    .error .nameTooLong
  else do
    let place ← t.locateDirectory (t.start directory) directory.names
    match unusedName? t place attempts with
    | some name => return (t.set (place ++ [name]) (.file (t.newMode asked) []), place ++ [name])
    | none => .error .alreadyExists

/-- The maker of temporary files that numbers them. -/
def numbered : Temporaries where
  create := createNumbered
  persist := Tree.rename
  discard := Tree.erase

end Temporaries

end NodeHeader.Files
