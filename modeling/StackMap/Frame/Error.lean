import StackMap.Fault

/-!
# `Frame.Error`: why code is refused

## Contents

* `Cause`: what is wrong with an instruction in the frame before it; `ErrorKind`: the same without
  particulars.
* `Halt`: how a computation ends before its time, with an error or with a fault.
* `InsnError`: a cause at an instruction, which may have been located in its method.
-/

namespace StackMap

/-- **What is wrong with an instruction.** -/
inductive Cause where
  /-- The constant cannot be loaded. -/
  | illegalConstant (c : Option Constant)
  /-- The dynamic constant has a type without values. -/
  | illegalDynamic (desc : String)
  /-- The operand of an array load is no array. -/
  | illegalArrayLoad (operand : Value)
  /-- No primitive type has this tag. -/
  | illegalArrayTag (tag : Int)
  | stackUnderflow
  | stackOverflow
  /-- A stack instruction meets a value of the wrong size. -/
  | wrongSize (insn : Insn) (expected : Nat)
  /-- There is no value to push. -/
  | noValue (insn : Insn)
  /-- Paths meet with stacks of different heights. -/
  | stackHeights (mine other : Nat)
  | fallOffEnd
  | incompatibleReturn
  | localOutOfRange (index : Int) (count : Nat)
  /-- A target is not in the list of instructions. -/
  | unknownLabel (l : Label)
  | badDescriptor (e : DescriptorError)
  /-- The descriptor is that of no values. -/
  | notValueType (desc : String)
  /-- The descriptor is not one of a method. -/
  | notMethodType (desc : String)
  deriving Repr

/-- The wording of a cause. -/
def Cause.message : Cause → String
  | .illegalConstant none => "illegal ldc constant: <nil>"
  | .illegalConstant (some c) => "illegal ldc constant: " ++ c.text
  | .illegalDynamic desc => "illegal ldc constant: dynamic constant of type " ++ desc
  | .illegalArrayLoad operand =>
    "illegal aaload on non-array operand: array operand is " ++ operand.descriptor
  | .illegalArrayTag tag => "invalid newarray type tag: " ++ Numeral.toText tag
  | .stackUnderflow => "cannot pop operand off an empty stack"
  | .stackOverflow => "insufficient maximum stack size"
  | .wrongSize insn expected =>
    "illegal use of stack instruction " ++ insn.text ++ ": expected value of size " ++
      Numeral.toText expected
  | .noValue insn => "illegal use of stack instruction " ++ insn.text ++ ": no value produced"
  | .stackHeights mine other =>
    "incompatible stack heights: " ++ Numeral.toText mine ++ " != " ++ Numeral.toText other
  | .fallOffEnd => "execution can fall off the end of the code"
  | .incompatibleReturn => "incompatible return type"
  | .localOutOfRange index count =>
    "local variable index out of range: " ++ Numeral.toText index ++ " (max " ++
      Numeral.toText count ++ ")"
  | .unknownLabel l => "label is not in the instruction list: " ++ l.text
  | .badDescriptor e => e.message
  | .notValueType desc => "malformed descriptor: " ++ desc ++ " is not a value type"
  | .notMethodType desc => "malformed descriptor: " ++ desc ++ " is not a method descriptor"

/-- **The kinds of causes.** -/
inductive ErrorKind where
  | illegalConstant
  | illegalArrayLoad
  | illegalArrayTag
  | badDescriptor
  | stackUnderflow
  | stackOverflow
  | incompatibleStackHeights
  | illegalStackOp
  | fallOffEnd
  | incompatibleReturn
  | localOutOfRange
  | unknownLabel
  deriving Repr, DecidableEq

/-- The name of a kind. -/
def ErrorKind.name : ErrorKind → String
  | .illegalConstant => "IllegalConstant"
  | .illegalArrayLoad => "IllegalArrayLoad"
  | .illegalArrayTag => "IllegalArrayTag"
  | .badDescriptor => "BadDescriptor"
  | .stackUnderflow => "StackUnderflow"
  | .stackOverflow => "StackOverflow"
  | .incompatibleStackHeights => "IncompatibleStackHeights"
  | .illegalStackOp => "IllegalStackOp"
  | .fallOffEnd => "FallOffEnd"
  | .incompatibleReturn => "IncompatibleReturn"
  | .localOutOfRange => "LocalOutOfRange"
  | .unknownLabel => "UnknownLabel"

/-- All kinds, in the order of their names. -/
def ErrorKind.all : List ErrorKind :=
  [.badDescriptor, .fallOffEnd, .illegalArrayLoad, .illegalArrayTag, .illegalConstant, .illegalStackOp,
    .incompatibleReturn, .incompatibleStackHeights, .localOutOfRange, .stackOverflow, .stackUnderflow,
    .unknownLabel]

/-- The kind with a name. -/
def ErrorKind.ofName? (name : String) : Option ErrorKind := all.find? (·.name == name)

/-- The kind of a cause. -/
def Cause.kind : Cause → ErrorKind
  | .illegalConstant _ | .illegalDynamic _ => .illegalConstant
  | .illegalArrayLoad _ => .illegalArrayLoad
  | .illegalArrayTag _ => .illegalArrayTag
  | .stackUnderflow => .stackUnderflow
  | .stackOverflow => .stackOverflow
  | .wrongSize .. | .noValue _ => .illegalStackOp
  | .stackHeights .. => .incompatibleStackHeights
  | .fallOffEnd => .fallOffEnd
  | .incompatibleReturn => .incompatibleReturn
  | .localOutOfRange .. => .localOutOfRange
  | .unknownLabel _ => .unknownLabel
  | .badDescriptor _ | .notValueType _ | .notMethodType _ => .badDescriptor

/-- How a computation ends before its time: with an error of its own, or with a fault. -/
inductive Halt (ε : Type) where
  | failed (error : ε)
  | fault (f : Fault)
  deriving Repr

/-- A cause at an instruction, with its position once that is known. -/
structure InsnError where
  insn : Insn
  index : Option Nat
  cause : Cause
  deriving Repr

/-- The wording of an `InsnError`. -/
def InsnError.message (e : InsnError) : String :=
  match e.index with
  | some i =>
    "error at instruction " ++ Numeral.toText i ++ " (" ++ e.insn.text ++ "): " ++ e.cause.message
  | none => "error at " ++ e.insn.text ++ ": " ++ e.cause.message

end StackMap
