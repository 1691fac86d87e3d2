import StackMap.Text.Blank

/-!
# `FileTree`: files by their paths

A tree holds files and directories. It stands for the part of a file system that a run looks at. Paths
are texts with slashes; the same place can be written in several ways, so a place is the list of the
parts of its cleaned path.

## Contents

* `Path.parts`, `Path.join`, `Path.extension`: paths.
* `FileTree`: the tree; `FileTree.kind?`, `FileTree.read?`: what is at a path.
* `FileTree.below`: the files below a directory in the order of a walk.
-/

namespace StackMap

namespace Path

/-- Whether a path starts at the root. -/
def isAbsolute (p : String) : Bool := p.toList.head? == some '/'

/-- The parts of a path between its slashes. -/
def split (p : String) : List String := (Text.splitWhere (· == '/') p.toList).map String.ofList

/-- A further part of a cleaned path, whose last part comes first. Two points take a part off. -/
def pushPart (rooted : Bool) (parts : List String) (part : String) : List String :=
  if part = "" ∨ part = "." then parts
  else if part = ".." then
    match parts with
    | [] => if rooted then [] else [".."]
    | last :: more => if last = ".." then ".." :: parts else more
  else part :: parts

/-- **The parts of a cleaned path.** One that starts at the root has the part `/` first. -/
def parts (p : String) : List String :=
  let rooted := isAbsolute p
  let cleaned := ((split p).foldl (pushPart rooted) []).reverse
  if rooted then "/" :: cleaned else cleaned

/-- Parts as a path again. -/
def ofParts : List String → String
  | [] => "."
  | "/" :: rest => "/" ++ "/".intercalate rest
  | parts => "/".intercalate parts

/-- **A path below a directory**, cleaned. -/
def join (dir p : String) : String := ofParts (parts (dir ++ "/" ++ p))

/-- The last part of a path from its last point on, or nothing. -/
def extension (p : String) : String :=
  let backwards := p.toList.reverse.takeWhile (· != '/')
  if backwards.contains '.' then
    String.ofList ('.' :: (backwards.takeWhile (· != '.')).reverse)
  else ""

end Path

/-- What a path leads to. -/
inductive FileKind where
  | file
  | directory
  deriving Repr, DecidableEq

/-- **Trees of files.** A directory exists if it is named or if it is above something that exists. -/
structure FileTree where
  directories : List (List String)
  files : List (List String × List UInt8)
  deriving Repr

namespace FileTree

/-- The tree without files. -/
def empty : FileTree := ⟨[], []⟩

/-- The tree with a further directory. -/
def addDirectory (t : FileTree) (path : String) : FileTree :=
  { t with directories := Path.parts path :: t.directories }

/-- The tree with a file, which takes the place of one that was there. -/
def addFile (t : FileTree) (path : String) (data : List UInt8) : FileTree :=
  let place := Path.parts path
  { t with files := (place, data) :: t.files.filter fun f => f.1 != place }

/-- The file at a place. -/
def fileAt? (t : FileTree) (place : List String) : Option (List UInt8) := t.files.lookup place

/-- Whether there is a directory at a place. -/
def hasDirectory (t : FileTree) (place : List String) : Bool :=
  place.isEmpty || t.directories.any (place.isPrefixOf ·) ||
    t.files.any fun f => place.isPrefixOf f.1 && f.1 != place

/-- **What is at a path.** -/
def kind? (t : FileTree) (path : String) : Option FileKind :=
  if path.isEmpty then none
  else
    let place := Path.parts path
    if (t.fileAt? place).isSome then some .file
    else if t.hasDirectory place then some .directory
    else none

/-- **The contents of the file at a path.** -/
def read? (t : FileTree) (path : String) : Option (List UInt8) :=
  if path.isEmpty then none else t.fileAt? (Path.parts path)

/-- Whether a file can be made at a path: the directory above it exists, and there is none at the path
itself. -/
def canCreate (t : FileTree) (path : String) : Bool :=
  let place := Path.parts path
  !path.isEmpty && !t.hasDirectory place && t.hasDirectory place.dropLast

/-- The order in which a walk meets two places: part by part, a directory before what it holds. -/
def walkLe (a b : List String) : Bool :=
  match a, b with
  | [], _ => true
  | _ :: _, [] => false
  | x :: a, y :: b => x < y || (x == y && walkLe a b)

/-- The rest of a place behind a directory above it. -/
def relativeTo? : (dir place : List String) → Option (List String)
  | [], place => some place
  | _ :: _, [] => none
  | x :: dir, y :: place => if x == y then relativeTo? dir place else none

/-- **The files below a directory**, by their places in it, in the order of a walk. -/
def below (t : FileTree) (dir : List String) : List (List String × List UInt8) :=
  let inside := t.files.filterMap fun (place, data) => (relativeTo? dir place).map (·, data)
  inside.mergeSort fun a b => walkLe a.1 b.1

end FileTree

end StackMap
