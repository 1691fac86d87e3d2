import StackMap.Command.Run

/-!
# `Main`: the program

The program reads the files that its arguments name into a tree, runs the command on it, and prints what
the command has to say.
-/

namespace StackMap.Program

/-- Reads a file into a tree. One that cannot be read is left out. -/
def readFile (path : String) (t : FileTree) : IO FileTree := do
  try
    let data ← IO.FS.readBinFile path
    return t.addFile path data.data.toList
  catch _ => return t

/-- Reads a file, or all files below a directory, into a tree. -/
partial def readAll (path : String) (t : FileTree) : IO FileTree := do
  try
    let place ← IO.FS.realPath path
    if ← place.isDir then
      let names := (← place.readDir).map (·.fileName)
      names.foldlM (fun t name => readAll (path ++ "/" ++ name) t) (t.addDirectory path)
    else readFile path t
  catch _ => return t

/-- Makes the file for a profile, and adds the directory that it is in to a tree. -/
def makeProfile (path : String) (t : FileTree) : IO FileTree := do
  try
    IO.FS.writeFile path ""
    return t.addDirectory (Path.ofParts (Path.parts path).dropLast)
  catch _ => return t

/-- The tree of the files that a run looks at. -/
def readTree (o : Options) : IO FileTree := do
  let t ← if o.config.isEmpty then pure FileTree.empty else readFile o.config .empty
  let t ← if o.profile.isEmpty then pure t else makeProfile o.profile t
  o.paths.foldlM (fun t path => readAll path t) t

/-- Prints an outcome. -/
def printOutcome (o : Outcome) : IO Unit := do
  IO.print o.output
  for line in o.complaints do IO.eprintln line
  match o.logged with
  | some e => IO.eprintln (e.heading ++ ": " ++ e.message)
  | none => return

end StackMap.Program

open StackMap in
/-- The program. -/
def main (arguments : List String) : IO UInt32 := do
  let files ← match Options.parse arguments with
    | .ok o => Program.readTree o
    | .error _ => pure FileTree.empty
  match Command.run files 1 arguments with
  | .ok outcome =>
    Program.printOutcome outcome
    return outcome.status.toUInt32
  | .error f =>
    IO.eprintln ((f.message? fun _ => "node").getD "internal fault")
    return 2
