import StackMap.Code.Insn
import StackMap.Desc.Parse

/-!
# `Code.Method`: methods

## Contents

* `TryCatch`, `Method`: a method with its instructions and exception handlers.
* `Method.position?`: where a label stands.
* `Method.type`: the type of a method, checked.
* `Method.text`: a listing of the instructions by number.
-/

namespace StackMap

/-- An exception handler for the instructions from `start` up to `stop`, the latter not included. An
empty type catches everything. -/
structure TryCatch where
  start : Label
  stop : Label
  handler : Label
  type : String
  deriving Repr, DecidableEq

/-- **Methods.** A method without instructions has no code. -/
structure Method where
  access : Int
  name : String
  desc : String
  maxStack : Int
  maxLocals : Int
  insns : Array Insn
  tryCatch : List TryCatch
  deriving Repr

namespace Method

/-- Whether the access flags hold the one for static methods. -/
def isStatic (m : Method) : Bool := m.access / 8 % 2 == 1

/-- Whether the method has a body. -/
def hasCode (m : Method) : Bool := !m.insns.isEmpty

/-- Whether an instruction is the given label. -/
def isLabel (l : Label) : Insn → Bool
  | .label l' => l' == l
  | _ => false

/-- The last index below `n` at which `insns` has the label. -/
def lastBelow? (insns : Array Insn) (l : Label) : Nat → Option Nat
  | 0 => none
  | n + 1 => if (insns[n]?.map (isLabel l)).getD false then some n else lastBelow? insns l n

/-- **The position of a label** in the list of instructions. If it is listed more than once, the last
position counts. -/
def position? (m : Method) (l : Label) : Option Nat := lastBelow? m.insns l m.insns.size

/-- **The type of a method**: its descriptor has to be one of a method. -/
def type (m : Method) : Except DescriptorError Ty := Desc.parseMethod m.desc

/-- A number in a column of four places. -/
def column (n : Nat) : String :=
  let digits := Nat.toDigits 10 n
  String.ofList (List.replicate (4 - digits.length) ' ' ++ digits)

/-- **A listing of the method**: a heading, and a line for each instruction. -/
def text (m : Method) : String :=
  m.name ++ m.desc ++ "\n" ++
    String.join (m.insns.toList.zipIdx.map fun (insn, i) =>
      column i ++ "  " ++ insn.text ++ "\n")

end Method

end StackMap
