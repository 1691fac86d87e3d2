import StackMap.Code.Insn
import StackMap.Value

/-!
# `Fault`: operations that have no answer

Some operations are asked of something that they are not meant for: a projection of the wrong type, an
instruction whose node does not fit its operation code, a value where there is none. These are faults of
the caller and not verdicts on the code under analysis, so they are kept apart from errors.

## Contents

* `Arity`, `Fault`: the numbers of operands of transfer functions, and all faults.
* `Fault.message?`: the wording of a fault, for those that have one.
* `Value.reference`: the reference of a type, or a fault.
-/

namespace StackMap

/-- The numbers of operands by which transfer functions are told apart. -/
inductive Arity where
  | nullary
  | unary
  | binary
  | variadic
  deriving Repr, DecidableEq

/-- The name of the transfer function for a number of operands, in messages. -/
def Arity.operationName : Arity → String
  | .nullary => "NewOperation"
  | .unary => "UnaryOperation"
  | .binary => "BinaryOperation"
  | .variadic => "NaryOperation"

/-- **Faults.** -/
inductive Fault where
  /-- A projection of a type failed. -/
  | type (f : TypeFault)
  /-- A reference was asked for a type that has none. -/
  | notReference (t : Ty)
  /-- There are no values of this type. -/
  | noValue (t : Ty)
  /-- A transfer function does not know the operation code. -/
  | unhandled (arity : Arity) (insn : Insn)
  /-- The operation code is not known at all. -/
  | unhandledOpcode (insn : Insn)
  /-- A load or store names no variable. -/
  | notVariable (insn : Insn)
  /-- An invocation names no method. -/
  | notInvocation (insn : Insn)
  /-- Frames of different methods meet. -/
  | localCounts (mine other : Nat)
  /-- The worklist has no element to give. -/
  | emptyWorklist
  /-- The node does not have the operands that the operation code needs. -/
  | wrongNode
  /-- A property of a value was asked where there is none. -/
  | missingValue
  /-- A number of slots is below zero. -/
  | negativeSize
  deriving Repr

/-- **The wording of a fault**, given the names of the kinds of nodes. -/
def Fault.message? (kindName : Insn.Kind → String) : Fault → Option String
  | .type f => f.message?
  | .notReference t => some ("NewReference of " ++ t.sort.name ++ " type " ++ t.descriptor)
  | .noValue t => some ("Unhandled type: " ++ t.sort.name ++ " (" ++ t.descriptor ++ ")")
  | .unhandled arity insn =>
    some ("Unhandled instruction in " ++ arity.operationName ++ ": " ++ insn.text)
  | .unhandledOpcode insn => some ("Unhandled opcode: " ++ insn.opcode.name ++ " " ++ insn.text)
  | .notVariable insn =>
    some ("Expected " ++ kindName .var ++ " for " ++ insn.opcode.name ++ ", got " ++
      kindName insn.kind)
  | .notInvocation insn =>
    some ("Unhandled invoke node: " ++ kindName insn.kind ++ " " ++ insn.text)
  | .localCounts mine other =>
    some ("Frames have different numbers of locals: " ++ Numeral.toText mine ++ " != " ++
      Numeral.toText other)
  | .emptyWorklist => some "Worklist is empty"
  | .wrongNode | .missingValue | .negativeSize => none

/-- **The reference of a type**, which has to be that of a class or array. -/
def Value.reference : Ty → Except Fault Value
  | .object d => .ok (.object d)
  | .array d => .ok (.array d)
  | t => .error (.notReference t)

end StackMap
