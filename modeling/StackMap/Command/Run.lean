import StackMap.Batch
import StackMap.ClassPath
import StackMap.Command.Options
import StackMap.Listing.File

/-!
# `Command.Run`: the command

The command loads classes and listings, analyses their methods and prints the report on each. It looks at
nothing but its arguments and a tree of files, and all that it has to say is in its outcome.

## Contents

* `RunError`: errors that end a run and go to the log.
* `Outcome`: what a run leaves behind.
* `Command.run`: the outcome of a run.
-/

namespace StackMap

/-- Why classes could not be loaded. -/
inductive LoadError where
  | classPath (e : ClassPath.Error)
  | flaws (fs : List ClassPath.Flaw)
  | read (e : ReadError)
  | listing (path : String) (e : FileError)
  deriving Repr

/-- The wording of a `LoadError`. -/
def LoadError.message : LoadError → String
  | .classPath e => e.message
  | .flaws fs => ClassPath.flawsMessage fs
  | .read e => e.message
  | .listing path e => path ++ ": " ++ e.message

/-- **Errors that end a run** and go to the log. -/
inductive RunError where
  | profile (path : String)
  | loading (e : LoadError)
  | analysis (f : Failure)
  | canceled
  deriving Repr

/-- The heading of a `RunError` in the log. -/
def RunError.heading : RunError → String
  | .profile _ => "could not create CPU profile"
  | .loading _ => "loading classes failed"
  | .analysis _ | .canceled => "analysis failed"

/-- The wording of a `RunError`. -/
def RunError.message : RunError → String
  | .profile path => "open " ++ path ++ ": no such file or directory"
  | .loading e => e.message
  | .analysis f => f.message
  | .canceled => "context canceled"

/-- **What a run leaves behind**: its exit status, what it prints, and the error in its log. -/
structure Outcome where
  status : Nat
  output : String
  complaints : List String
  logged : Option RunError
  deriving Repr

namespace Command

/-- The outcome of a run that ends with an error in the log. -/
def failedWith (e : RunError) : Outcome := ⟨1, "", [], some e⟩

/-- The outcome of a run that ends with complaints. -/
def complain (status : Nat) (complaints : List String) : Outcome := ⟨status, "", complaints, none⟩

/-- Whether a path is one of a file of listings. -/
def isListingPath (path : String) : Bool := [".yaml", ".yml"].contains (Path.extension path)

/-- The classes of the listings in a file. -/
def classesOfListing (files : FileTree) (path : String) : Except LoadError (List Class) := do
  let listings ← (MethodListing.loadFile files path).mapError .read
  (Class.ofListings listings).mapError (.listing path)

/-- **The classes of all paths**, with the flaws: first those on the class path, then those of listings. -/
def loadClasses (files : FileTree) (paths : List String) : Except LoadError ClassPath.Finds := do
  let finds ← (ClassPath.load files "" (fun _ => false) (paths.filter (!isListingPath ·))).mapError .classPath
  let listed ← (paths.filter isListingPath).mapM (classesOfListing files)
  return { finds with classes := finds.classes ++ listed.flatten }

/-- The settings of a run: those of the settings file, if one is named, with the options that were given. -/
def loadSettings (files : FileTree) (o : Options) : Except SettingsError Settings := do
  let s ← if o.config.isEmpty then pure Settings.empty else Settings.load files o.config
  return o.settings s

/-- The report on the methods of a batch. Each one is followed by an empty line. -/
def report (style : SlotStyle) (tables : List FrameTable) : String :=
  String.join (tables.map fun t => FrameTable.unlines (t.lines style ++ [""]))

/-- The outcome of a batch. -/
def outcomeOf (s : Settings) : Except Stop Outcomes → Except Fault Outcome
  | .error (.fault f) => .error f
  | .error (.failed f) => .ok (failedWith (.analysis f))
  | .error .canceled => .ok (failedWith .canceled)
  | .ok o =>
    let style := if s.format = "descriptors" then .descriptors else .short
    .ok ⟨if o.failures.isEmpty then 0 else 1, report style o.tables, o.failures.map Failure.message, none⟩

/-- The analysis of classes under settings. -/
def analyzeClasses (processors : Nat) (s : Settings) (classes : List Class) : Except Fault Outcome :=
  let selects (owner : String) (m : Method) : Bool := s.selects owner m.name
  outcomeOf s (Batch.analyze (Batch.planFor selects classes s.workers processors s.failFast) false)

/-- The part of a run after its settings are known. Flaws do not matter as long as there are classes. -/
def runWith (files : FileTree) (processors : Nat) (o : Options) (s : Settings) : Except Fault Outcome :=
  if !o.profile.isEmpty && !files.canCreate o.profile then .ok (failedWith (.profile o.profile))
  else
    let files := if o.profile.isEmpty then files else files.addFile o.profile []
    match loadClasses files o.paths with
    | .error e => .ok (failedWith (.loading e))
    | .ok finds =>
      if finds.classes.isEmpty && !finds.flaws.isEmpty then
        .ok (failedWith (.loading (.flaws finds.flaws)))
      else analyzeClasses processors s finds.classes

/-- **The outcome of a run** of the command on a tree of files. -/
def run (files : FileTree) (processors : Nat) (arguments : List String) : Except Fault Outcome :=
  match Options.parse arguments with
  | .error e => .ok (complain e.status e.lines)
  | .ok o =>
    match loadSettings files o with
    | .error e => .ok (complain 2 [e.message])
    | .ok s => runWith files processors o s

end Command

end StackMap
