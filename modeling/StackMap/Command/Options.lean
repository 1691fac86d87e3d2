import StackMap.Settings

/-!
# `Command.Options`: the options of the command

An option starts with one or two dashes. A switch is on by itself and takes a value only behind an equals
sign; any other option takes the next argument if it has none there. The first argument that is no option
ends them, as two dashes do, which are dropped.

## Contents

* `Options`: the options of a run; `Options.parse`: those of a list of arguments.
* `UsageError`: what is wrong with arguments.
* `Options.settings`: the settings with the options that were given.
* `usage`: the help text.
-/

namespace StackMap

/-- **The options of a run.** What was not given is absent. -/
structure Options where
  config : String
  profile : String
  workers : Option Int
  failFast : Option Bool
  verbose : Option Bool
  descriptors : Option Bool
  paths : List String
  deriving Repr, DecidableEq

/-- What is wrong with arguments. -/
inductive UsageError where
  | syntaxOf (argument : String)
  | undefined (name : String)
  | noArgument (name : String)
  | invalidSwitch (value name : String)
  | invalidValue (value name : String) (e : Numeral.NumeralError)
  | help
  | noPaths
  deriving Repr, DecidableEq

/-- The wording of a flaw in a number, as options have it. -/
def UsageError.numeralText : Numeral.NumeralError → String
  | .malformed => "parse error"
  | .outOfRange => "value out of range"

/-- The wording of a `UsageError`. The wish for help has none. -/
def UsageError.message? : UsageError → Option String
  | .syntaxOf argument => some ("bad flag syntax: " ++ argument)
  | .undefined name => some ("flag provided but not defined: -" ++ name)
  | .noArgument name => some ("flag needs an argument: -" ++ name)
  | .invalidSwitch value name =>
    some ("invalid boolean value " ++ Text.quote value ++ " for -" ++ name ++ ": parse error")
  | .invalidValue value name e =>
    some ("invalid value " ++ Text.quote value ++ " for flag -" ++ name ++ ": " ++ numeralText e)
  | .help => none
  | .noPaths => some "Specify class files, jars, directories or .yaml listings on the command line"

/-- The help text, line by line. -/
def usage : List String :=
  ["Usage of jvmtype:",
    "  -config file", "    \tread configuration from TOML file",
    "  -cpuprofile file", "    \twrite cpu profile to file",
    "  -descriptors", "    \tprint full descriptors instead of R for references",
    "  -fail-fast", "    \tstop at the first method that fails to analyze",
    "  -v\tenable debug logging",
    "  -workers int", "    \tnumber of methods analyzed in parallel (default GOMAXPROCS)"]

/-- What is printed on a `UsageError`. -/
def UsageError.lines (e : UsageError) : List String := e.message?.toList ++ usage

/-- The exit status for a `UsageError`. -/
def UsageError.status : UsageError → Nat
  | .help => 0
  | _ => 2

namespace Options

/-- No options. -/
def empty : Options := ⟨"", "", none, none, none, none, []⟩

/-- The names of switches. -/
def switches : List String := ["fail-fast", "v", "descriptors"]

/-- The names of options with a value. -/
def valued : List String := ["config", "cpuprofile", "workers"]

/-- The truth value that a text stands for. -/
def truth? (s : String) : Option Bool :=
  if ["1", "t", "T", "TRUE", "true", "True"].contains s then some true
  else if ["0", "f", "F", "FALSE", "false", "False"].contains s then some false
  else none

/-- The options with a switch. -/
def setSwitch (o : Options) (name : String) (b : Bool) : Options :=
  match name with
  | "fail-fast" => { o with failFast := some b }
  | "v" => { o with verbose := some b }
  | _ => { o with descriptors := some b }

/-- The options with a value. -/
def setValue (o : Options) (name value : String) : Except UsageError Options :=
  match name with
  | "config" => .ok { o with config := value }
  | "cpuprofile" => .ok { o with profile := value }
  | _ =>
    match Numeral.readSigned 64 value.toList with
    | .ok n => .ok { o with workers := some n }
    | .error e => .error (.invalidValue value name e)

/-- An argument as an option: its name without the dashes, and the value behind an equals sign, which
cannot come first. -/
def split (name : List Char) : String × Option String :=
  match name with
  | [] => ("", none)
  | c :: rest =>
    match Text.cutAt (· == '=') rest with
    | some (before, value) => (String.ofList (c :: before), some (String.ofList value))
    | none => (String.ofList (c :: rest), none)

/-- The name of an argument that is an option, with what comes behind it. -/
def optionName? (argument : String) : Option (List Char) :=
  match argument.toList with
  | '-' :: '-' :: name => some name
  | '-' :: c :: name => some (c :: name)
  | _ => none

/-- **The options of a list of arguments.** -/
def parseFrom (o : Options) : List String → Except UsageError Options
  | [] => .ok o
  | argument :: rest =>
    match optionName? argument with
    | none => .ok { o with paths := argument :: rest }
    | some name =>
      if argument = "--" then .ok { o with paths := rest }
      else if name.head?.all fun c => c = '-' || c = '=' then .error (.syntaxOf argument)
      else
        let (name, value?) := split name
        if switches.contains name then
          match value? with
          | none => parseFrom (o.setSwitch name true) rest
          | some value =>
            match truth? value with
            | some b => parseFrom (o.setSwitch name b) rest
            | none => .error (.invalidSwitch value name)
        else if valued.contains name then
          match value?, rest with
          | some value, rest =>
            match o.setValue name value with
            | .ok o => parseFrom o rest
            | .error e => .error e
          | none, value :: rest =>
            match o.setValue name value with
            | .ok o => parseFrom o rest
            | .error e => .error e
          | none, [] => .error (.noArgument name)
        else if name = "help" ∨ name = "h" then .error .help
        else .error (.undefined name)

/-- **The options of the command**, which have to name a path at least. -/
def parse (arguments : List String) : Except UsageError Options := do
  let o ← parseFrom empty arguments
  if o.paths.isEmpty then throw .noPaths
  return o

/-- **The settings with the options that were given.** Descriptors can only be asked for. -/
def settings (o : Options) (s : Settings) : Settings :=
  { s with
    workers := o.workers.getD s.workers
    failFast := o.failFast.getD s.failFast
    verbose := o.verbose.getD s.verbose
    format := if o.descriptors = some true then "descriptors" else s.format }

end Options

end StackMap
