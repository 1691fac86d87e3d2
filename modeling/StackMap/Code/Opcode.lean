import StackMap.Numeral.Integer

/-!
# `Code.Opcode`: operation codes

An operation code is a number. Those from 0 to 201 have mnemonics; −1 stands for a pseudo instruction,
which marks a position and does nothing; every other number is kept but means nothing.

## Contents

* `Opcode`, `mnemonics`: the codes and their names.
* `Opcode.name`, `Opcode.ofMnemonic?`: from code to name and back.
* `Opcode.isReturn`, `Opcode.isConditionalJump`: how control leaves an instruction.
* `Opcode.normalize`: the general form of a short form.
-/

namespace StackMap

/-- An operation code. -/
structure Opcode where
  code : Int
  deriving Repr, DecidableEq

namespace Opcode

/-- The names of the codes 0, 1, …, 201. -/
def mnemonics : Array String := #[
  "nop", "aconst_null", "iconst_m1", "iconst_0", "iconst_1", "iconst_2", "iconst_3", "iconst_4",
  "iconst_5", "lconst_0", "lconst_1", "fconst_0", "fconst_1", "fconst_2", "dconst_0", "dconst_1",
  "bipush", "sipush", "ldc", "ldc_w", "ldc2_w", "iload", "lload", "fload", "dload", "aload",
  "iload_0", "iload_1", "iload_2", "iload_3", "lload_0", "lload_1", "lload_2", "lload_3",
  "fload_0", "fload_1", "fload_2", "fload_3", "dload_0", "dload_1", "dload_2", "dload_3",
  "aload_0", "aload_1", "aload_2", "aload_3", "iaload", "laload", "faload", "daload", "aaload",
  "baload", "caload", "saload", "istore", "lstore", "fstore", "dstore", "astore", "istore_0",
  "istore_1", "istore_2", "istore_3", "lstore_0", "lstore_1", "lstore_2", "lstore_3", "fstore_0",
  "fstore_1", "fstore_2", "fstore_3", "dstore_0", "dstore_1", "dstore_2", "dstore_3", "astore_0",
  "astore_1", "astore_2", "astore_3", "iastore", "lastore", "fastore", "dastore", "aastore",
  "bastore", "castore", "sastore", "pop", "pop2", "dup", "dup_x1", "dup_x2", "dup2", "dup2_x1",
  "dup2_x2", "swap", "iadd", "ladd", "fadd", "dadd", "isub", "lsub", "fsub", "dsub", "imul",
  "lmul", "fmul", "dmul", "idiv", "ldiv", "fdiv", "ddiv", "irem", "lrem", "frem", "drem", "ineg",
  "lneg", "fneg", "dneg", "ishl", "lshl", "ishr", "lshr", "iushr", "lushr", "iand", "land",
  "ior", "lor", "ixor", "lxor", "iinc", "i2l", "i2f", "i2d", "l2i", "l2f", "l2d", "f2i", "f2l",
  "f2d", "d2i", "d2l", "d2f", "i2b", "i2c", "i2s", "lcmp", "fcmpl", "fcmpg", "dcmpl", "dcmpg",
  "ifeq", "ifne", "iflt", "ifge", "ifgt", "ifle", "if_icmpeq", "if_icmpne", "if_icmplt",
  "if_icmpge", "if_icmpgt", "if_icmple", "if_acmpeq", "if_acmpne", "goto", "jsr", "ret",
  "tableswitch", "lookupswitch", "ireturn", "lreturn", "freturn", "dreturn", "areturn", "return",
  "getstatic", "putstatic", "getfield", "putfield", "invokevirtual", "invokespecial",
  "invokestatic", "invokeinterface", "invokedynamic", "new", "newarray", "anewarray",
  "arraylength", "athrow", "checkcast", "instanceof", "monitorenter", "monitorexit", "wide",
  "multianewarray", "ifnull", "ifnonnull", "goto_w", "jsr_w"]

/-- The code of pseudo instructions. -/
def pseudo : Opcode := ⟨-1⟩

/-- Whether a code lies between two others, both included. -/
def between (op : Opcode) (low high : Int) : Bool := low ≤ op.code && op.code ≤ high

/-- **The name of a code**: its mnemonic, if it has one. -/
def name (op : Opcode) : String :=
  if op = pseudo then "<pseudo>"
  else if op.code < 0 then "Opcode(" ++ Numeral.toHexText op.code ++ ")"
  else match mnemonics[op.code.toNat]? with
    | some mnemonic => mnemonic
    | none => "Opcode(" ++ Numeral.toHexText op.code ++ ")"

/-- **The code with a mnemonic.** -/
def ofMnemonic? (mnemonic : String) : Option Opcode :=
  (mnemonics.findIdx? (· == mnemonic)).map fun i => ⟨i⟩

/-! ## Codes that are named elsewhere -/

def bipush : Opcode := ⟨0x10⟩
def sipush : Opcode := ⟨0x11⟩
def ldc : Opcode := ⟨0x12⟩
def iload : Opcode := ⟨0x15⟩
def aload : Opcode := ⟨0x19⟩
def istore : Opcode := ⟨0x36⟩
def astore : Opcode := ⟨0x3a⟩
def iinc : Opcode := ⟨0x84⟩
def goto : Opcode := ⟨0xa7⟩
def jsr : Opcode := ⟨0xa8⟩
def ret : Opcode := ⟨0xa9⟩
def tableswitch : Opcode := ⟨0xaa⟩
def lookupswitch : Opcode := ⟨0xab⟩
def getstatic : Opcode := ⟨0xb2⟩
def invokestatic : Opcode := ⟨0xb8⟩
def invokeinterface : Opcode := ⟨0xb9⟩
def invokedynamic : Opcode := ⟨0xba⟩
def new : Opcode := ⟨0xbb⟩
def newarray : Opcode := ⟨0xbc⟩
def anewarray : Opcode := ⟨0xbd⟩
def athrow : Opcode := ⟨0xbf⟩
def checkcast : Opcode := ⟨0xc0⟩
def instanceof : Opcode := ⟨0xc1⟩
def wide : Opcode := ⟨0xc4⟩
def multianewarray : Opcode := ⟨0xc5⟩

/-! ## Classes of codes -/

/-- The instructions that leave the method normally. -/
def isReturn (op : Opcode) : Bool := op.between 0xac 0xb1

/-- The jumps that may also fall through. -/
def isConditionalJump (op : Opcode) : Bool := op.between 0x99 0xa6 || op.between 0xc6 0xc7

/-- The jumps of one target. -/
def isJump (op : Opcode) : Bool := op.between 0x99 0xa8 || op.between 0xc6 0xc7

/-- The loads of a local variable. -/
def isLoad (op : Opcode) : Bool := op.between 0x15 0x19

/-- The stores to a local variable. -/
def isStore (op : Opcode) : Bool := op.between 0x36 0x3a

/-- The accesses to fields. -/
def isFieldAccess (op : Opcode) : Bool := op.between 0xb2 0xb5

/-- The invocations that name a method. -/
def isMethodCall (op : Opcode) : Bool := op.between 0xb6 0xb9

/-- **The general form of a short form**, with the local variable that it implies. Loads and stores of
the locals 0 to 3 have short forms, and `ldc`, `goto` and `jsr` have wide ones. -/
def normalize (op : Opcode) : Opcode × Option Nat :=
  if op.between 0x1a 0x2d then
    let n := (op.code - 0x1a).toNat
    (⟨0x15 + (n / 4 : Nat)⟩, some (n % 4))
  else if op.between 0x3b 0x4e then
    let n := (op.code - 0x3b).toNat
    (⟨0x36 + (n / 4 : Nat)⟩, some (n % 4))
  else if op.between 0x13 0x14 then (ldc, none)
  else if op.code = 0xc8 then (goto, none)
  else if op.code = 0xc9 then (jsr, none)
  else (op, none)

end Opcode

end StackMap
