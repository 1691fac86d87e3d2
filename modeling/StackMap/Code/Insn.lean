import StackMap.Code.Opcode
import StackMap.Code.Constant

/-!
# `Code.Insn`: instructions

An instruction is a node with its operands. The kind of node does not fix the operation code: nodes can
be made by hand, and the analysis answers for every combination.

## Contents

* `Label`: a position in a list of instructions.
* `Insn`: the fourteen kinds of nodes; `Insn.kind` names them.
* `Insn.opcode`, `Insn.references`, `Insn.text`: the operation code, the targets and the text of a node.
-/

namespace StackMap

/-- **Labels.** Labels of one name in different code blocks are told apart by the number of the block. -/
structure Label where
  name : String
  block : Nat := 0
  deriving Repr, DecidableEq

/-- A label as an operand; one without a name is shown by a stand-in. -/
def Label.operandText (l : Label) : String := if l.name = "" then "L<ptr>" else l.name

/-- A label as a line of its own. -/
def Label.text (l : Label) : String := l.operandText ++ ":"

/-- **Instructions**, by kind of node. A label is a pseudo instruction. -/
inductive Insn where
  | plain (op : Opcode)
  | int (op : Opcode) (operand : Int)
  | var (op : Opcode) (index : Int)
  | type (op : Opcode) (desc : String)
  | field (op : Opcode) (owner name desc : String)
  | method (op : Opcode) (owner name desc : String) (itf : Bool)
  | dynamic (name desc : String) (bootstrap : Option Handle) (args : List Constant)
  | label (l : Label)
  | jump (op : Opcode) (target : Label)
  | ldc (constant : Option Constant)
  | iinc (index amount : Int)
  | tableSwitch (low high : Int32) (dflt : Label) (labels : List Label)
  | lookupSwitch (dflt : Label) (keys : List Int32) (labels : List Label)
  | multiArray (desc : String) (dimensions : Int)
  deriving Repr

namespace Insn

/-- The kinds of nodes. -/
inductive Kind where
  | plain | int | var | type | field | method | dynamic | label | jump | ldc | iinc
  | tableSwitch | lookupSwitch | multiArray
  deriving Repr, DecidableEq

/-- The kind of a node. -/
def kind : Insn → Kind
  | plain .. => .plain
  | int .. => .int
  | var .. => .var
  | type .. => .type
  | field .. => .field
  | method .. => .method
  | dynamic .. => .dynamic
  | label .. => .label
  | jump .. => .jump
  | ldc .. => .ldc
  | iinc .. => .iinc
  | tableSwitch .. => .tableSwitch
  | lookupSwitch .. => .lookupSwitch
  | multiArray .. => .multiArray

/-- **The operation code** of a node. -/
def opcode : Insn → Opcode
  | plain op | int op _ | var op _ | type op _ | field op .. | method op .. | jump op _ => op
  | dynamic .. => .invokedynamic
  | label _ => .pseudo
  | ldc _ => .ldc
  | iinc .. => .iinc
  | tableSwitch .. => .tableswitch
  | lookupSwitch .. => .lookupswitch
  | multiArray .. => .multianewarray

/-- The labels that a node refers to, in order. -/
def references : Insn → List Label
  | jump _ target => [target]
  | tableSwitch _ _ dflt labels => dflt :: labels
  | lookupSwitch dflt _ labels => dflt :: labels
  | _ => []

/-- A list of numbers in brackets. -/
def keysText (keys : List Int32) : String :=
  "[" ++ " ".intercalate (keys.map fun k => Numeral.toText k.toInt) ++ "]"

/-- **The text of a node**: the mnemonic and the operands. -/
def text : Insn → String
  | plain op => op.name
  | int op operand => op.name ++ " " ++ Numeral.toText operand
  | var op index => op.name ++ " " ++ Numeral.toText index
  | type op desc => op.name ++ " " ++ desc
  | field op owner name desc => op.name ++ " " ++ owner ++ "." ++ name ++ ":" ++ desc
  | method op owner name desc _ => op.name ++ " " ++ owner ++ "." ++ name ++ desc
  | dynamic name desc _ _ => "invokedynamic " ++ name ++ desc
  | label l => l.text
  | jump op target => op.name ++ " " ++ target.operandText
  | ldc none => "ldc <nil>"
  | ldc (some c) => "ldc " ++ c.text
  | iinc index amount => "iinc " ++ Numeral.toText index ++ " " ++ Numeral.toText amount
  | tableSwitch low high _ _ =>
    "tableswitch " ++ Numeral.toText low.toInt ++ ".." ++ Numeral.toText high.toInt
  | lookupSwitch _ keys _ => "lookupswitch " ++ keysText keys
  | multiArray desc dimensions => "multianewarray " ++ desc ++ " " ++ Numeral.toText dimensions

end Insn

end StackMap
