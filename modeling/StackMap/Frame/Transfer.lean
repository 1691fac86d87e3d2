import StackMap.Desc.Parse
import StackMap.Frame.Error

/-!
# `Frame.Transfer`: the values that instructions produce

A transfer function gives the slot that an instruction produces from its operands. The category of the
result follows from the operation code; only field accesses, invocations, array creations and casts
look at a descriptor, and only the load from a reference array looks at an operand.

## Contents

* `valueOf`: the value of a type.
* `nullary`, `unary`, `binary`, `variadic`: the transfer functions.
-/

namespace StackMap.Transfer

/-- **The value of a type.** `void` has none, the small integer types share that of `int`. -/
def valueOf : Ty → Except Fault Slot
  | .absent => .ok (some .uninit)
  | .void => .ok none
  | .boolean | .char | .byte | .short | .int => .ok (some .int)
  | .float => .ok (some .float)
  | .long => .ok (some .long)
  | .double => .ok (some .double)
  | .object d => .ok (some (.object d))
  | .array d => .ok (some (.array d))
  | .method d => .error (.noValue (.method d))

/-- The value of a type, as an outcome of a transfer function. -/
def result (t : Ty) : Except (Halt Cause) Slot := (valueOf t).mapError .fault

/-- The value of the class or array with the given name. -/
def ofClassName (name : String) : Except (Halt Cause) Slot := .ok (some (Value.ofClassName name))

/-- **The value that a descriptor denotes**, which has to be that of a field. -/
def ofDescriptor (desc : String) : Except (Halt Cause) Slot :=
  match Desc.parse desc with
  | .error e => .error (.failed (.badDescriptor e))
  | .ok .void | .ok (.method _) => .error (.failed (.notValueType desc))
  | .ok t => result t

/-- The value of a constant. -/
def ofConstant : Option Constant → Except (Halt Cause) Slot
  | some (.int _) => .ok (some .int)
  | some (.float _) => .ok (some .float)
  | some (.long _) => .ok (some .long)
  | some (.double _) => .ok (some .double)
  | some (.string _) => ofClassName "java/lang/String"
  | some (.type (.object _)) | some (.type (.array _)) => ofClassName "java/lang/Class"
  | some (.type (.method _)) => ofClassName "java/lang/invoke/MethodType"
  | some (.handle _) => ofClassName "java/lang/invoke/MethodHandle"
  | some (.dynamic _ desc _ _) =>
    match Desc.parse desc with
    | .error e => .error (.failed (.badDescriptor e))
    | .ok .void | .ok (.method _) => .error (.failed (.illegalDynamic desc))
    | .ok t => result t
  | c => .error (.failed (.illegalConstant c))

/-- The value of the field that an instruction reads. -/
def ofField : Insn → Except (Halt Cause) Slot
  | .field _ _ _ desc => ofDescriptor desc
  | _ => .error (.fault .wrongNode)

/-- **Instructions without operands**: constants, `jsr`, `getstatic` and `new`. -/
def nullary (insn : Insn) : Except (Halt Cause) Slot :=
  let op := insn.opcode
  if op.code = 0x01 then ofClassName "null"
  else if op.between 0x02 0x08 || op.between 0x10 0x11 then .ok (some .int)
  else if op.between 0x09 0x0a then .ok (some .long)
  else if op.between 0x0b 0x0d then .ok (some .float)
  else if op.between 0x0e 0x0f then .ok (some .double)
  else if op = .ldc then
    match insn with
    | .ldc c => ofConstant c
    | _ => .error (.fault .wrongNode)
  else if op = .jsr then .ok (some .returnAddress)
  else if op = .getstatic then ofField insn
  else if op = .new then
    match insn with
    | .type _ name => ofClassName name
    | _ => .error (.fault .wrongNode)
  else .error (.fault (.unhandled .nullary insn))

/-- The descriptor of the array type that `newarray` makes for a tag. -/
def primitiveArray? (tag : Int) : Option String :=
  if tag = 4 then some "[Z"
  else if tag = 5 then some "[C"
  else if tag = 6 then some "[F"
  else if tag = 7 then some "[D"
  else if tag = 8 then some "[B"
  else if tag = 9 then some "[S"
  else if tag = 10 then some "[I"
  else if tag = 11 then some "[J"
  else none

/-- The descriptor of the array whose components are of the class or array with the given name. -/
def arrayOf (name : String) : String :=
  if name.toList.head? = some '[' then "[" ++ name else "[L" ++ name ++ ";"

/-- The operation codes of unary instructions with a result of a primitive category. -/
def unaryResult? (op : Opcode) : Option Value :=
  if op.code ∈ [0x74, 0x84, 0x88, 0x8b, 0x8e, 0x91, 0x92, 0x93] then some .int
  else if op.code ∈ [0x76, 0x86, 0x89, 0x90] then some .float
  else if op.code ∈ [0x75, 0x85, 0x8c, 0x8f] then some .long
  else if op.code ∈ [0x77, 0x87, 0x8a, 0x8d] then some .double
  else if op.code ∈ [0xbe, 0xc1] then some .int
  else none

/-- The operation codes of unary instructions without a result. -/
def isUnarySink (op : Opcode) : Bool :=
  op.between 0x99 0x9e || op.between 0xaa 0xb0 || op.code = 0xb3 || op.code = 0xbf ||
    op.between 0xc2 0xc3 || op.between 0xc6 0xc7

/-- **Instructions with one operand.** The operand itself never matters. -/
def unary (insn : Insn) : Except (Halt Cause) Slot :=
  let op := insn.opcode
  match unaryResult? op with
  | some v => .ok (some v)
  | none =>
    if isUnarySink op then .ok none
    else if op.code = 0xb4 then ofField insn
    else if op = .newarray then
      match insn with
      | .int _ tag =>
        match primitiveArray? tag with
        | some desc => .ok (some (.array desc))
        | none => .error (.failed (.illegalArrayTag tag))
      | _ => .error (.fault .wrongNode)
    else if op = .anewarray then
      match insn with
      | .type _ name => ofDescriptor (arrayOf name)
      | _ => .error (.fault .wrongNode)
    else if op = .checkcast then
      match insn with
      | .type _ name => ofClassName name
      | _ => .error (.fault .wrongNode)
    else .error (.fault (.unhandled .unary insn))

/-- The operation codes of binary instructions with a result of a primitive category. -/
def binaryResult? (op : Opcode) : Option Value :=
  if op.code = 0x2e || op.between 0x33 0x35 then some .int
  else if op.code = 0x2f then some .long
  else if op.code = 0x30 then some .float
  else if op.code = 0x31 then some .double
  else if op.between 0x60 0x73 then
    let r := op.code % 4
    if r = 0 then some .int else if r = 1 then some .long else if r = 2 then some .float
    else some .double
  else if op.between 0x78 0x83 then if op.code % 2 = 0 then some .int else some .long
  else if op.between 0x94 0x98 then some .int
  else none

/-- The operation codes of binary instructions without a result. -/
def isBinarySink (op : Opcode) : Bool := op.between 0x9f 0xa6 || op.code = 0xb5

/-- The value of the components of an array. -/
def ofComponent : Slot → Except (Halt Cause) Slot
  | none => .error (.fault .missingValue)
  | some (.array d) =>
    match (Ty.array d).component with
    | .ok t => result t
    | .error f => .error (.fault (.type f))
  | some v => .error (.failed (.illegalArrayLoad v))

/-- **Instructions with two operands.** Only the load from a reference array looks at one, the lower. -/
def binary (insn : Insn) (lower : Slot) : Except (Halt Cause) Slot :=
  let op := insn.opcode
  match binaryResult? op with
  | some v => .ok (some v)
  | none =>
    if op.code = 0x32 then ofComponent lower
    else if isBinarySink op then .ok none
    else .error (.fault (.unhandled .binary insn))

/-- The value that a method with the given descriptor returns. -/
def ofInvocation (desc : String) : Except (Halt Cause) Slot :=
  match Desc.parse desc with
  | .error e => .error (.failed (.badDescriptor e))
  | .ok (.method d) =>
    match (Ty.method d).result with
    | .ok t => result t
    | .error f => .error (.fault (.type f))
  | .ok _ => .error (.failed (.notMethodType desc))

/-- **Instructions with any number of operands**: invocations and `multianewarray`. -/
def variadic (insn : Insn) : Except (Halt Cause) Slot :=
  match insn with
  | .multiArray desc _ => ofDescriptor desc
  | .dynamic _ desc _ _ => ofInvocation desc
  | .method _ _ _ desc _ => ofInvocation desc
  | _ => .error (.fault (.unhandled .variadic insn))

end StackMap.Transfer
