import StackMap.Assembly.Assemble
import StackMap.Class

/-!
# `Listing.Basic`: methods written as assembly

A listing describes a method by its heading and its code in assembly. Listings of one owner make up a
class.

## Contents

* `MethodListing`: a listing; `ListingError`: what is wrong with one.
* `MethodListing.method`: the method of a listing.
* `MethodListing.find?`: a listing by owner, name and descriptor.
* `Class.ofListings`: listings grouped into classes.
-/

namespace StackMap

/-- A handler of a listing, by the names of labels. An empty type catches everything. -/
structure HandlerListing where
  start : String
  stop : String
  handler : String
  type : String
  deriving Repr, DecidableEq

/-- **A method written as assembly.** Without `maxStack` the stack is not bounded, and without
`maxLocals` the number of local variables is computed. -/
structure MethodListing where
  owner : String
  name : String
  desc : String
  access : List String
  maxStack : Option Int
  maxLocals : Option Int
  code : String
  tryCatch : List HandlerListing
  deriving Repr, DecidableEq

/-- What is wrong with a listing. -/
inductive ListingError where
  | accessFlag (flag : String)
  | descriptor (e : DescriptorError)
  | assembly (e : AssemblyError)
  | handlerLabel (name : String)
  deriving Repr

/-- The wording of a `ListingError`. -/
def ListingError.message : ListingError → String
  | .accessFlag flag => "invalid method listing: access flag " ++ Text.quote flag
  | .descriptor e => "invalid method listing: " ++ e.message
  | .assembly e => e.message
  | .handlerLabel name => "try_catch: undefined label: " ++ Text.quote name

namespace MethodListing

/-- The access flags by name. No two share a bit. -/
def accessFlags : List (String × Nat) :=
  [("public", 0x1), ("private", 0x2), ("protected", 0x4), ("static", 0x8), ("final", 0x10),
    ("synchronized", 0x20), ("bridge", 0x40), ("varargs", 0x80), ("native", 0x100),
    ("abstract", 0x400), ("strict", 0x800), ("synthetic", 0x1000)]

/-- The access flags of several names in any case. -/
def accessOf : List String → Except ListingError Nat
  | [] => .ok 0
  | flag :: rest =>
    match accessFlags.lookup (String.ofList (Text.lower flag.toList)) with
    | some bit => do return bit ||| (← accessOf rest)
    | none => .error (.accessFlag flag)

/-- The number of local variables up to the last one that an instruction touches. -/
def localsOf : Insn → Int
  | .var op i => if op.code ∈ [0x16, 0x18, 0x37, 0x39] then i + 2 else i + 1
  | .iinc i _ => i + 1
  | _ => 0

/-- **The number of local variables** that the parameters and the instructions of a method need. -/
def neededLocals (isStatic : Bool) (arguments : List Ty) (insns : List Insn) : Int :=
  let parameters : Int := Ty.totalSlots arguments + (if isStatic then 0 else 1)
  insns.foldl (fun n insn => max n (localsOf insn)) parameters

/-- The label with a name among the labels of the code. -/
def labelNamed (insns : List Insn) (name : String) : Except ListingError Label :=
  let l : Label := { name }
  if (Assembly.definedLabels insns).contains l then .ok l else .error (.handlerLabel name)

/-- The handler of a listing. -/
def handlerOf (insns : List Insn) (h : HandlerListing) : Except ListingError TryCatch := do
  let start ← labelNamed insns h.start
  let stop ← labelNamed insns h.stop
  let handler ← labelNamed insns h.handler
  return ⟨start, stop, handler, h.type⟩

/-- **The method of a listing.** -/
def method (l : MethodListing) : Except ListingError Method := do
  let access ← accessOf l.access
  let t ← (Desc.parseMethod l.desc).mapError .descriptor
  let insns ← (Assembly.assemble l.code).mapError .assembly
  let tryCatch ← l.tryCatch.mapM (handlerOf insns)
  let isStatic := access / 8 % 2 == 1
  let arguments := match t.arguments with
    | .ok arguments => arguments
    | .error _ => []
  return {
    access, name := l.name, desc := l.desc
    maxStack := l.maxStack.getD 0
    maxLocals := l.maxLocals.getD (neededLocals isStatic arguments insns)
    insns := insns.toArray, tryCatch }

/-- The position of the first listing with an owner and a name; an empty descriptor stands for any. -/
def find? (listings : List MethodListing) (owner name desc : String) : Option Nat :=
  listings.findIdx? fun l =>
    l.owner == owner && l.name == name && (desc == "" || l.desc == desc)

/-- The heading of a listing, in front of an error. -/
def heading (l : MethodListing) : String := l.owner ++ "." ++ l.name ++ l.desc

end MethodListing

/-- An error in one of several listings. -/
structure FileError where
  listing : MethodListing
  error : ListingError
  deriving Repr

/-- The wording of a `FileError`. -/
def FileError.message (e : FileError) : String := e.listing.heading ++ ": " ++ e.error.message

namespace Class

/-- A class that so far has only a name. -/
def named (name : String) : Class := ⟨0, 0, 0, name, rootName, [], [], []⟩

/-- The classes with a method added to the one with the given name, which comes last if it is new. -/
def addMethod (classes : List Class) (owner : String) (m : Method) : List Class :=
  if classes.any (·.name == owner) then
    classes.map fun c => if c.name == owner then { c with methods := c.methods ++ [m] } else c
  else classes ++ [{ named owner with methods := [m] }]

/-- The classes of further listings added to those of earlier ones. -/
def ofListingsFrom (classes : List Class) : List MethodListing → Except FileError (List Class)
  | [] => .ok classes
  | l :: rest =>
    match l.method with
    | .ok m => ofListingsFrom (addMethod classes l.owner m) rest
    | .error e => .error ⟨l, e⟩

/-- **Listings grouped into classes** by owner, in the order in which the owners first appear. -/
def ofListings (listings : List MethodListing) : Except FileError (List Class) :=
  ofListingsFrom [] listings

end Class

end StackMap
