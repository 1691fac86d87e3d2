import StackMap.Archive.Zip
import StackMap.ClassFile.Read
import StackMap.Text.LowerCase

/-!
# `ClassPath`: where classes are found

A path leads to a class file, to an archive, or to a directory; in the latter two all class files count,
at any depth. A file that is no class is a flaw: it is reported beside the classes that were found.

## Contents

* `ClassPath.Finds`: the classes that were found, and the flaws.
* `ClassPath.Error`: why a path cannot be searched at all.
* `ClassPath.load`: the classes of several paths; `ClassPath.loadTree`: those of a whole tree.
-/

namespace StackMap.ClassPath

/-- A file that is no class, with the place where it is. -/
structure Flaw where
  origin : String
  error : ClassError
  deriving Repr

/-- The wording of a `Flaw`. -/
def Flaw.message (f : Flaw) : String := f.origin ++ ": " ++ f.error.message

/-- The wording of several flaws. -/
def flawsMessage (flaws : List Flaw) : String :=
  "errors encountered while loading classes: " ++ "\n".intercalate (flaws.map Flaw.message)

/-- **The classes that were found, and the flaws.** -/
structure Finds where
  classes : List Class
  flaws : List Flaw
  deriving Repr

/-- Nothing has been found yet. -/
def Finds.nothing : Finds := ⟨[], []⟩

/-- Why a path cannot be searched. -/
inductive Error where
  | missing (path : String)
  | archive (path : String) (e : Archive.Error)
  | member (e : Archive.Error)
  deriving Repr, DecidableEq

/-- The wording of an `Error`. -/
def Error.message : Error → String
  | .missing path => "stat " ++ path ++ ": no such file or directory"
  | .archive path e => path ++ ": " ++ e.message
  | .member e => e.message

/-- The finds with the class of a file, unless its name is to be skipped. -/
def Finds.add (skips : String → Bool) (f : Finds) (origin : String) (data : List UInt8) : Finds :=
  match ClassFile.parse data with
  | .error e => { f with flaws := f.flaws ++ [⟨origin, e⟩] }
  | .ok c => if skips c.name then f else { f with classes := f.classes ++ [c] }

/-- Whether a place is that of a class file. -/
def isClassPlace (place : List String) : Bool :=
  ".class".toList.isSuffixOf ((place.getLast?.getD "").toList)

/-- The finds with the class files among the files of a directory or an archive at `origin`. -/
def Finds.addFiles (skips : String → Bool) (origin : String) :
    Finds → List (List String × Except Archive.Error (List UInt8)) → Except Error Finds
  | f, [] => .ok f
  | f, (place, contents) :: more =>
    if !isClassPlace place then addFiles skips origin f more
    else match contents with
      | .error e => .error (.member e)
      | .ok data => addFiles skips origin (f.add skips (origin ++ "!" ++ Path.ofParts place) data) more

/-- The files below a directory, all of which can be read. -/
def readable (files : FileTree) (dir : List String) :
    List (List String × Except Archive.Error (List UInt8)) :=
  (files.below dir).map fun (place, data) => (place, .ok data)

/-- Whether a path is one of an archive. -/
def isArchive (path : String) : Bool :=
  [".jar", ".zip"].contains (String.ofList (Text.lower (Path.extension path).toList))

/-- **The finds with those at a path.** -/
def Finds.addPath (files : FileTree) (skips : String → Bool) (f : Finds) (path : String) :
    Except Error Finds :=
  match files.kind? path with
  | none => .error (.missing path)
  | some .directory => f.addFiles skips path (readable files (Path.parts path))
  | some .file =>
    let data := (files.read? path).getD []
    if isArchive path then do
      let entries ← (Archive.entries data.toArray).mapError (.archive path)
      f.addFiles skips path entries
    else .ok (f.add skips path data)

/-- The finds with the classes in the order of their names. Those of one name stay in order. -/
def Finds.sorted (f : Finds) : Finds :=
  { f with classes := f.classes.mergeSort fun a b => a.name ≤ b.name }

/-- A path that does not start at the root is taken below a directory, if one is given. -/
def below (dir : String) (path : String) : String :=
  if Path.isAbsolute path || dir.isEmpty then path else Path.join dir path

/-- **The classes of several paths**, except those whose names are to be skipped. -/
def load (files : FileTree) (dir : String) (skips : String → Bool) (paths : List String) :
    Except Error Finds := do
  let finds ← paths.foldlM (fun f path => Finds.addPath files skips f (below dir path)) Finds.nothing
  return finds.sorted

/-- **The classes of a whole tree.** -/
def loadTree (files : FileTree) (skips : String → Bool) : Except Error Finds := do
  let finds ← Finds.addFiles skips "." .nothing (readable files [])
  return finds.sorted

end StackMap.ClassPath
