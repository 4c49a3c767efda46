/-
  Walking along paths, looking at files and reading them.

  A path is walked name by name, from the root if it is absolute and from the
  working directory otherwise; above the root is the root. A symbolic link sends
  the walk along its target before the rest of the path; at most `Tree.linkLimit`
  links are followed on one walk. Every name but the last has to be found, and all
  but the last have to be directories; whether something is at the end is left to
  the operation.
-/
import NodeHeader.Files.Interference
import NodeHeader.Files.Tree

namespace NodeHeader.Files

open NodeHeader.Text (Bytes)

/-- The text that the contents of a file are, if they are one. -/
def textOf (contents : Bytes) : Except Fault String :=
  match Text.decode? contents with
  | some text => .ok text
  | none => .error .notUtf8

/-- Accepts a path that can be walked at all. -/
def Path.check (p : Path) : Except Fault Unit :=
  if p.bytes.contains 0 then .error .zeroByte
  else if p.bytes.isEmpty then .error .notFound
  else if p.bytes.length ≥ Path.lengthLimit then .error .nameTooLong
  else .ok ()

namespace Tree

/-! ### Walks -/

/-- The number of links that a walk may follow. -/
def linkLimit : Nat := 40

/-- Walks from a directory along names. Where a link is met, `jump` goes on from a
directory along further names. -/
def walkWith (t : Tree) (jump : Location → List Name → Except Fault Location) :
    Location → List Name → Except Fault Location
  | here, [] => .ok here
  | here, name :: rest =>
    if name = selfName then walkWith t jump here rest
    else if name = parentName then walkWith t jump here.dropLast rest
    else if name.length > Name.maxLength then .error .nameTooLong
    else
      match t.find? (here ++ [name]) with
      | some .directory => walkWith t jump (here ++ [name]) rest
      | some (.link target) =>
        if target.bytes.isEmpty then .error .notFound
        else jump (if target.isAbsolute then [] else here) (target.steps ++ rest)
      | some (.file ..) => if rest.isEmpty then .ok (here ++ [name]) else .error .notADirectory
      | none => if rest.isEmpty then .ok (here ++ [name]) else .error .notFound

/-- Walks from a directory along names, following a number of links at most. -/
def walk (t : Tree) : Nat → Location → List Name → Except Fault Location
  | 0 => walkWith t fun _ _ => .error .tooManyLinks
  | links + 1 => walkWith t (walk t links)

/-- Where the walk along a path starts. -/
def start (t : Tree) (p : Path) : Location :=
  if p.isAbsolute then [] else t.working

/-- The location that a path leads to, all links followed. -/
def locate (t : Tree) (p : Path) : Except Fault Location := do
  p.check
  t.walk linkLimit (t.start p) p.steps

/-- The location of the directory that names lead to from a location, all links followed. -/
def locateDirectory (t : Tree) (start : Location) (names : List Name) :
    Except Fault Location :=
  t.walk linkLimit start (names ++ [selfName])

/-- The location that a path names within its directory; a link at that location is not
followed. -/
def slot (t : Tree) (p : Path) : Except Fault Location := do
  p.check
  match p.names.getLast? with
  | none => .error .busy
  | some name =>
    let directory ← t.locateDirectory (t.start p) p.names.dropLast
    if name = selfName ∨ name = parentName then .error .busy
    else if name.length > Name.maxLength then .error .nameTooLong
    else return directory ++ [name]

/-! ### Looking and reading -/

/-- What stands where a path leads to, all links followed. -/
def look (t : Tree) (p : Path) (interference : Interference := {}) : Except Fault Item := do
  interference.check .look
  let loc ← t.locate p
  match t.find? loc with
  | some item => return item
  | none => .error .notFound

/-- The permission bits of the regular file that a path is seen to lead to. A path that cannot
be looked at is not seen to lead to any. -/
def fileMode? (t : Tree) (p : Path) (interference : Interference := {}) : Option Mode :=
  match t.look p interference with
  | .ok (.file mode _) => some mode
  | _ => none

/-- The contents of the file that a path leads to. -/
def read (t : Tree) (p : Path) (interference : Interference := {}) : Except Fault Bytes := do
  interference.check .read
  let loc ← t.locate p
  match t.find? loc with
  | some (.file _ contents) => return contents
  | some .directory => .error .isADirectory
  | _ => .error .notFound

end Tree

end NodeHeader.Files
