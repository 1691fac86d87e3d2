import StackMap.FileTree
import StackMap.Pattern
import StackMap.Text.LowerCase
import StackMap.Toml.Document

/-!
# `Settings`: how a batch is run and shown

## Contents

* `Settings`: the settings of a run; `SettingsError`: what is wrong with them.
* `Settings.validate`: the checks that the type does not make.
* `Settings.selects`: the methods that the patterns of the settings select.
* `Settings.ofToml`, `Settings.load`: settings from a text, and from a file.
-/

namespace StackMap

/-- **Settings.** `methods` are patterns for class and method names, and without any of them all methods
are selected. `format` is `short`, `descriptors`, or empty for the former. -/
structure Settings where
  workers : Int
  failFast : Bool
  verbose : Bool
  methods : List String
  format : String
  deriving Repr, DecidableEq

/-- What is wrong with settings. -/
inductive SettingsError where
  | unreadable (path : String)
  | text (e : Toml.Error)
  | format (name : String)
  | pattern (p : String)
  deriving Repr, DecidableEq

/-- The wording of a `SettingsError`. -/
def SettingsError.message : SettingsError → String
  | .unreadable path =>
    "failed to read config file: open " ++ path ++ ": no such file or directory"
  | .text e => "failed to parse config file: " ++ e.message
  | .format name => "unknown format " ++ Text.quote name
  | .pattern p => "bad method pattern " ++ Text.quote p ++ ": syntax error in pattern"

namespace Settings

/-- The settings when none are given. -/
def empty : Settings := ⟨0, false, false, [], ""⟩

/-- The formats of reports. -/
def formats : List String := ["", "short", "descriptors"]

/-- **The checks on settings**: the format is known, and all patterns are well-formed. -/
def validate (s : Settings) : Except SettingsError Unit := do
  if !formats.contains s.format then throw (.format s.format)
  for p in s.methods do
    if (Pattern.parse? p).isNone then throw (.pattern p)

/-- **Whether a method is selected**: there are no patterns, or one of them fits its name behind that of
its class. -/
def selects (s : Settings) (owner name : String) : Bool :=
  s.methods.isEmpty || s.methods.any fun p => Pattern.matchesName p (owner ++ "." ++ name)

/-! ## Reading settings -/

/-- The keys of settings. -/
def keys : List String := ["workers", "fail_fast", "verbose", "methods", "format"]

/-- The texts in a list of values. -/
def texts? (items : List Toml.Scalar) : Option (List String) :=
  items.mapM fun
    | .text s => some s
    | _ => none

/-- Settings with the value of a key, whose case does not matter. Other keys are left alone, and a key
of several parts has no value here. -/
def set (s : Settings) (key : String) (v : Toml.Value) : Except SettingsError Settings :=
  match String.ofList (Text.lower key.toList), v with
  | "workers", .scalar (.integer n) => .ok { s with workers := n }
  | "fail_fast", .scalar (.boolean b) => .ok { s with failFast := b }
  | "verbose", .scalar (.boolean b) => .ok { s with verbose := b }
  | "format", .scalar (.text name) => .ok { s with format := name }
  | "methods", .array items =>
    match texts? items with
    | some methods => .ok { s with methods }
    | none => .error (.text (.mistyped key))
  | lower, _ =>
    let first := String.ofList (lower.toList.takeWhile (· != '.'))
    if keys.contains first then .error (.text (.mistyped key)) else .ok s

/-- A table takes the place of a single value. -/
def clashes (t : Toml.Table) : Bool :=
  let lower := String.ofList (Text.lower t.name.toList)
  keys.contains lower && (lower == "methods" || !t.pairs.isEmpty)

/-- Settings with all values of a table. Tables with a name hold no settings. -/
def setTable (s : Settings) (t : Toml.Table) : Except SettingsError Settings :=
  if t.name == "" then t.pairs.foldlM (fun s (key, v) => s.set key v) s
  else if clashes t then .error (.text (.mistyped t.name))
  else .ok s

/-- **Settings from a text.** -/
def ofToml (text : String) : Except SettingsError Settings := do
  let tables ← (Toml.parse text).mapError .text
  let s ← tables.foldlM setTable empty
  s.validate
  return s

/-- **Settings from a file.** -/
def load (files : FileTree) (path : String) : Except SettingsError Settings :=
  match files.read? path with
  | none => .error (.unreadable path)
  | some data =>
    match Text.decode? data with
    | none => .error (.text .malformed)
    | some text => ofToml (String.ofList text)

end Settings

end StackMap
