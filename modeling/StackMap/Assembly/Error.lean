import StackMap.Code.Opcode
import StackMap.Desc.Basic

/-!
# `Assembly.Error`: what is wrong with a line of assembly

## Contents

* `OperandFlaw`: what is wrong with the operands of an instruction.
* `LineError`, `AssemblyError`: what is wrong with a line, and which line it is.
-/

namespace StackMap

/-- **What is wrong with operands.** -/
inductive OperandFlaw where
  /-- A short form already names its local variable. -/
  | takesNone (mnemonic : String)
  | count (op : Opcode) (want got : Nat)
  | integer (text : String) (e : Numeral.NumeralError)
  | real (text : String) (e : Numeral.NumeralError)
  | arrayType (text : String)
  | localVariable (text : String)
  | tableSwitchOperands
  | tableSwitchRange
  | lookupSwitchOperands
  | lookupSwitchCase (text : String)
  | dimensions (text : String)
  | stringLiteral (text : String)
  | missingConstant
  | classOperands
  | methodTypeOperands
  | methodDescriptor (text : String)
  | handleOperands
  | handleKind (text : String)
  | dynamicOperands
  | constant (text : String)
  | classDescriptor (e : DescriptorError)
  deriving Repr

/-- The wording of an `OperandFlaw`. -/
def OperandFlaw.message : OperandFlaw → String
  | .takesNone mnemonic => mnemonic ++ " takes no operands"
  | .count op want got =>
    op.name ++ " takes " ++ Numeral.toText want ++ " operands, got " ++ Numeral.toText got
  | .integer text e => "strconv.ParseInt: parsing " ++ Text.quote text ++ ": " ++ e.message
  | .real text e => "strconv.ParseFloat: parsing " ++ Text.quote text ++ ": " ++ e.message
  | .arrayType text => "array type " ++ Text.quote text
  | .localVariable text => "local " ++ Text.quote text
  | .tableSwitchOperands => "tableswitch needs min, default and at least one label"
  | .tableSwitchRange => "tableswitch range overflows"
  | .lookupSwitchOperands => "lookupswitch needs a default label"
  | .lookupSwitchCase text => "lookupswitch case " ++ Text.quote text ++ " is not key:label"
  | .dimensions text => "dimensions " ++ Text.quote text
  | .stringLiteral text =>
    "string " ++ text ++ ": " ++ Numeral.NumeralError.malformed.message
  | .missingConstant => "ldc needs a constant"
  | .classOperands => "class takes a type"
  | .methodTypeOperands => "methodtype takes a descriptor"
  | .methodDescriptor text => "method descriptor " ++ Text.quote text
  | .handleOperands => "handle takes kind owner name desc [itf]"
  | .handleKind text => "handle kind " ++ Text.quote text
  | .dynamicOperands => "dynamic takes name desc"
  | .constant text => "constant " ++ Text.quote text
  | .classDescriptor e => e.message

/-- **What is wrong with a line.** -/
inductive LineError where
  | unknownOpcode (mnemonic : String)
  | operand (flaw : OperandFlaw)
  | undefinedLabel (name : String)
  | duplicateLabel (name : String)
  deriving Repr

/-- The wording of a `LineError`. -/
def LineError.message : LineError → String
  | .unknownOpcode mnemonic => "unknown opcode: " ++ Text.quote mnemonic
  | .operand flaw => "bad operand: " ++ flaw.message
  | .undefinedLabel name => "undefined label: " ++ name
  | .duplicateLabel name => "duplicate label: " ++ name

/-- An error in a line of assembly; lines are counted from one. -/
structure AssemblyError where
  line : Nat
  error : LineError
  deriving Repr

/-- The wording of an `AssemblyError`. -/
def AssemblyError.message (e : AssemblyError) : String :=
  "line " ++ Numeral.toText e.line ++ ": " ++ e.error.message

end StackMap
