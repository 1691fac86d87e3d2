import StackMap.FileTree
import StackMap.Listing.Basic
import StackMap.Yaml.Decode

/-!
# `Listing.File`: files of listings

A file of listings has a mapping whose key `methods` leads to a list of methods. What a method leaves out
is empty.

## Contents

* `MethodListing.ofNode`: a listing from a node.
* `MethodListing.parseFile`: the listings of a text.
* `MethodListing.loadFile`: the listings of a file in a tree.
-/

namespace StackMap

open Yaml (Node Fields)

/-- A handler from a node. -/
def HandlerListing.ofNode (n : Node) : Except Yaml.Error (Option HandlerListing) := do
  match ← n.fields? with
  | none => return none
  | some fields => return some {
      start := ← Fields.text fields "start"
      stop := ← Fields.text fields "end"
      handler := ← Fields.text fields "handler"
      type := ← Fields.text fields "type" }

namespace MethodListing

/-- **A listing from a node.** -/
def ofNode (n : Node) : Except Yaml.Error (Option MethodListing) := do
  match ← n.fields? with
  | none => return none
  | some fields => return some {
      owner := ← Fields.text fields "owner"
      name := ← Fields.text fields "name"
      desc := ← Fields.text fields "desc"
      access := (← Fields.texts? fields "access").getD []
      maxStack := ← (Fields.node fields "max_stack").int?
      maxLocals := ← (Fields.node fields "max_locals").int?
      code := ← Fields.text fields "code"
      tryCatch := ← Fields.items fields "try_catch" HandlerListing.ofNode }

/-- The listing of a method without any particulars. -/
def blank : MethodListing := ⟨"", "", "", [], none, none, "", []⟩

/-- The listings of a document. -/
def ofDocument (n : Node) : Except Yaml.Error (List MethodListing) := do
  match ← n.fields? with
  | none => return []
  | some fields => Fields.items fields "methods" ofNode

/-- **The listings of a text.** -/
def parseFile (data : List UInt8) : Except Yaml.Error (List MethodListing) := do
  ofDocument (← Yaml.parseBytes data)

end MethodListing

/-- Why a file cannot be read. -/
inductive ReadError where
  | missing (path : String)
  | yaml (path : String) (e : Yaml.Error)
  deriving Repr, DecidableEq

/-- The wording of a `ReadError`. -/
def ReadError.message : ReadError → String
  | .missing path => "open " ++ path ++ ": no such file or directory"
  | .yaml path e => path ++ ": " ++ e.message

/-- **The listings of a file.** -/
def MethodListing.loadFile (files : FileTree) (path : String) : Except ReadError (List MethodListing) :=
  match files.read? path with
  | none => .error (.missing path)
  | some data => (parseFile data).mapError (.yaml path)

end StackMap
