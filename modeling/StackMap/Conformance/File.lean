import StackMap.Conformance.Basic
import StackMap.Listing.File

/-!
# `Conformance.File`: files of cases

## Contents

* `Conformance.Suite.parse`: the suite of a text.
* `Conformance.loadAll`: the cases of all suites below a directory.
-/

namespace StackMap.Conformance

open Yaml (Node Fields)

/-- An expectation from a node. -/
def Expectation.ofNode (n : Node) : Except Yaml.Error (Option Expectation) := do
  match ← n.fields? with
  | none => return none
  | some fields => return some {
      position := ← Fields.text fields "at"
      stack := ← Fields.texts? fields "stack"
      locals := ← Fields.texts? fields "locals"
      unreachable := (← (Fields.node fields "unreachable").bool?).getD false }

/-- A case from a node. Its description is only read. -/
def Case.ofNode (n : Node) : Except Yaml.Error (Option Case) := do
  match ← n.fields? with
  | none => return none
  | some fields =>
    let _ ← Fields.text fields "description"
    return some {
      name := ← Fields.text fields "name"
      skip := ← Fields.text fields "skip"
      method := (← MethodListing.ofNode (Fields.node fields "method")).getD .blank
      expect := ← Fields.items fields "expect" Expectation.ofNode
      error := ← Fields.text fields "error"
      errorAt := ← Fields.text fields "error_at" }

/-- A suite from a node. -/
def Suite.ofNode (n : Node) : Except Yaml.Error Suite := do
  match ← n.fields? with
  | none => return ⟨"", []⟩
  | some fields =>
    let _ ← Fields.text fields "description"
    return ⟨← Fields.text fields "name", ← Fields.items fields "tests" Case.ofNode⟩

/-- **The suite of a text.** -/
def Suite.parse (data : List UInt8) : Except Yaml.Error Suite := do
  ofNode (← Yaml.parseBytes data)

/-- A case with the file and the suite that it is from. -/
structure LoadedCase where
  file : String
  suite : String
  case : Case
  deriving Repr, DecidableEq

/-- Whether a path is one of a file with YAML in it. -/
def isYamlPath (path : String) : Bool := [".yaml", ".yml"].contains (Path.extension path)

/-- Why cases cannot be loaded. -/
inductive LoadError where
  | missing (dir : String)
  | yaml (path : String) (e : Yaml.Error)
  deriving Repr, DecidableEq

/-- The wording of a `LoadError`. -/
def LoadError.message : LoadError → String
  | .missing dir => "lstat " ++ dir ++ ": no such file or directory"
  | .yaml path e => path ++ ": " ++ e.message

/-- The cases of the suite in a file below a directory. -/
def casesOf (dir : String) (file : String × List UInt8) : Except LoadError (List LoadedCase) := do
  let suite ← (Suite.parse file.2).mapError (.yaml (Path.join dir file.1))
  return suite.cases.map fun case => ⟨file.1, suite.name, case⟩

/-- **The cases of all suites below a directory**, in the order of the names of their files. -/
def loadAll (files : FileTree) (dir : String) : Except LoadError (List LoadedCase) := do
  match files.kind? dir with
  | none => throw (.missing dir)
  | some _ =>
    let named := (files.below (Path.parts dir)).map fun (place, data) => (Path.ofParts place, data)
    let yaml := (named.filter (isYamlPath ·.1)).mergeSort fun a b => a.1 ≤ b.1
    return (← yaml.mapM (casesOf dir)).flatten

end StackMap.Conformance
