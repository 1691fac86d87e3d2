import StackMap.Desc.Basic
import StackMap.Numeral.Shortest

/-!
# `Code.Constant`: constants that code can load

## Contents

* `Handle`: a method handle, and the names of its nine kinds.
* `Constant`: numbers, strings, types, handles and dynamically computed constants.
* `Constant.text`: a constant as an assembly listing writes it.
-/

namespace StackMap

/-- A method handle: its kind, and the member that it refers to. -/
structure Handle where
  kind : Int
  owner : String
  name : String
  desc : String
  itf : Bool
  deriving Repr, DecidableEq

namespace Handle

/-- The names of the handle kinds 1, 2, …, 9. -/
def kindNames : List String :=
  ["getfield", "getstatic", "putfield", "putstatic", "invokevirtual", "invokestatic",
    "invokespecial", "newinvokespecial", "invokeinterface"]

/-- The handle kind with a name. -/
def kindOfName? (name : String) : Option Nat :=
  (kindNames.findIdx? (· == name)).map (· + 1)

/-- The name of a handle kind, or its number if it has none. -/
def kindName (kind : Int) : String :=
  match if 0 < kind then kindNames[(kind - 1).toNat]? else none with
  | some name => name
  | none => Numeral.toText kind

/-- A handle as a listing writes it. -/
def text (h : Handle) : String :=
  "handle " ++ kindName h.kind ++ " " ++ h.owner ++ " " ++ h.name ++ " " ++ h.desc

end Handle

/-- **Constants.** Floating-point numbers are kept as their bit patterns and strings as bytes. A
dynamic constant carries its bootstrap method and the arguments of that. -/
inductive Constant where
  | int (value : Int32)
  | float (bits : UInt32)
  | long (value : Int64)
  | double (bits : UInt64)
  | string (bytes : List UInt8)
  | type (t : Ty)
  | handle (h : Handle)
  | dynamic (name desc : String) (bootstrap : Option Handle) (args : List Constant)
  deriving Repr

/-- **The text of a constant** in a listing. -/
def Constant.text : Constant → String
  | .int v => Numeral.toText v.toInt
  | .float bits => Numeral.single.toText bits.toNat ++ "f"
  | .long v => Numeral.toText v.toInt ++ "L"
  | .double bits => Numeral.double.toText bits.toNat ++ "d"
  | .string bytes => Text.quoteBytes bytes
  | .type (.method d) => "methodtype " ++ d
  | .type t => "class " ++ t.descriptor
  | .handle h => h.text
  | .dynamic name desc _ _ => "dynamic " ++ name ++ " " ++ desc

end StackMap
