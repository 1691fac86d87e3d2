import StackMap.Frame.Basic
import StackMap.Frame.Transfer

/-!
# `Frame.Execute`: the effect of an instruction on a frame

Running an instruction pops its operands, asks a transfer function for the slot that it produces, and
pushes or stores that. A run that fails stops where it is: what it has popped by then stays popped.

## Contents

* `StackOp`, `Effect`, `Opcode.effect?`: what an operation code does to a frame.
* `Exec`: runs over a frame.
* `Exec.store`, `Exec.stackOp`, `Exec.invoke`: the effects that take more than a line.
* `Exec.execute`, `Frame.execute`: the effect of an instruction.
-/

namespace StackMap

/-- The instructions that rearrange the top of the stack. -/
inductive StackOp where
  | pop | pop2 | dup | dupX1 | dupX2 | dup2 | dup2X1 | dup2X2 | swap
  deriving Repr, DecidableEq

/-- **What an operation code does to a frame.** -/
inductive Effect where
  /-- Nothing. -/
  | idle
  /-- Pushes a slot. -/
  | produce
  /-- Pushes a local variable. -/
  | load
  /-- Pops a local variable's new slot. -/
  | store
  /-- Pops two and pushes one. -/
  | combine
  /-- Pops three. -/
  | storeElement
  /-- Rearranges the top of the stack. -/
  | rearrange (op : StackOp)
  /-- Pops one and pushes one. -/
  | convert
  /-- Changes a local variable in place. -/
  | increment
  /-- Pops one. -/
  | consume
  /-- Pops two. -/
  | consumeTwo
  /-- Leaves the method with a value. -/
  | returnValue
  /-- Leaves the method without a value. -/
  | returnVoid
  /-- Pops the operands of an invocation and pushes its result. -/
  | invoke
  /-- Pops the lengths of an array's dimensions and pushes the array. -/
  | multiArray
  deriving Repr, DecidableEq

/-- The instruction that a code of the stack group stands for. -/
def StackOp.ofCode? (code : Int) : Option StackOp :=
  if code = 0x57 then some .pop
  else if code = 0x58 then some .pop2
  else if code = 0x59 then some .dup
  else if code = 0x5a then some .dupX1
  else if code = 0x5b then some .dupX2
  else if code = 0x5c then some .dup2
  else if code = 0x5d then some .dup2X1
  else if code = 0x5e then some .dup2X2
  else if code = 0x5f then some .swap
  else none

/-- The effect of an operation code. Short and wide forms have none: they do not occur in lists of
instructions. -/
def Opcode.effect? (op : Opcode) : Option Effect :=
  if op = .pseudo || op.code = 0x00 || op = .goto || op = .ret then some .idle
  else if op.between 0x01 0x12 || op = .jsr || op = .getstatic || op = .new then some .produce
  else if op.isLoad then some .load
  else if op.isStore then some .store
  else if op.between 0x2e 0x35 || op.between 0x60 0x73 || op.between 0x78 0x83 ||
      op.between 0x94 0x98 then some .combine
  else if op.between 0x4f 0x56 then some .storeElement
  else if op.between 0x57 0x5f then (StackOp.ofCode? op.code).map .rearrange
  else if op.between 0x74 0x77 || op.between 0x85 0x93 || op.code = 0xb4 || op.between 0xbc 0xbe ||
      op.between 0xc0 0xc1 then some .convert
  else if op = .iinc then some .increment
  else if op.between 0x99 0x9e || op.between 0xaa 0xab || op.code = 0xb3 || op = .athrow ||
      op.between 0xc2 0xc3 || op.between 0xc6 0xc7 then some .consume
  else if op.between 0x9f 0xa6 || op.code = 0xb5 then some .consumeTwo
  else if op.between 0xac 0xb0 then some .returnValue
  else if op.code = 0xb1 then some .returnVoid
  else if op.between 0xb6 0xba then some .invoke
  else if op = .multianewarray then some .multiArray
  else none

/-- **Runs over a frame.** A run that halts leaves the frame as it is at that moment. -/
abbrev Exec := EStateM (Halt Cause) Frame

namespace Exec

/-- The run that halts because of a cause. -/
def fail {α : Type} (cause : Cause) : Exec α := throw (.failed cause)

/-- The run that halts with a fault. -/
def fault {α : Type} (f : Fault) : Exec α := throw (.fault f)

/-- An outcome that does not touch the frame. -/
def ofExcept {α : Type} : Except (Halt Cause) α → Exec α
  | .ok a => pure a
  | .error h => throw h

/-- Pops the top of the stack. -/
def pop : Exec Slot := do
  match (← get).pop with
  | .ok (v, f) => set f; return v
  | .error cause => fail cause

/-- Pops `n` entries. -/
def popMany : Nat → Exec Unit
  | 0 => return ()
  | n + 1 => do
    let _ ← pop
    popMany n

/-- The size of the value in a slot. -/
def size : Slot → Exec Nat
  | some v => return v.size
  | none => fault .missingValue

/-- Pops an entry of the given size. -/
def popSized (insn : Insn) (n : Nat) : Exec Slot := do
  let v ← pop
  if (← size v) = n then return v else fail (.wrongSize insn n)

/-- The top of the stack, which has to be of the given size. -/
def topSized (insn : Insn) (n : Nat) : Exec Slot := do
  match (← get).top with
  | .error cause => fail cause
  | .ok v => if (← size v) = n then return v else fail (.wrongSize insn n)

/-- Pushes a slot, which has to hold a value. -/
def push (insn : Insn) (v : Slot) : Exec Unit := do
  if v.isNone then fail (.noValue insn)
  match (← get).push v with
  | .ok f => set f
  | .error cause => fail cause

/-- Pushes several slots, the first one first. -/
def pushAll (insn : Insn) : List Slot → Exec Unit
  | [] => return ()
  | v :: rest => do
    push insn v
    pushAll insn rest

/-- The slot of a local variable. -/
def getLocal (i : Int) : Exec Slot := do
  match (← get).local? i with
  | .ok v => return v
  | .error cause => fail cause

/-- Sets the slot of a local variable. -/
def setLocal (i : Int) (v : Slot) : Exec Unit := do
  match (← get).setLocal i v with
  | .ok f => set f
  | .error cause => fail cause

/-- The variable that a load or store names. -/
def variableOf : Insn → Exec Int
  | .var _ i => return i
  | insn => fault (.notVariable insn)

/-- **Stores the top of the stack to a local variable.** A value of size two also takes the next
variable, and overwriting the second half of such a value leaves nothing known of it. -/
def store (i : Int) : Exec Unit := do
  let v ← pop
  setLocal i v
  if (← size v) = 2 then setLocal (i + 1) (some .uninit)
  if 0 < i then
    let previous ← getLocal (i - 1)
    if (← size previous) = 2 then setLocal (i - 1) (some .uninit)

/-- **Rearranges the top of the stack.** An instruction never splits a value of size two. -/
def stackOp (insn : Insn) : StackOp → Exec Unit
  | .pop => do
    let _ ← popSized insn 1
  | .pop2 => do
    let v1 ← pop
    if (← size v1) = 1 then
      let _ ← popSized insn 1
  | .dup => do
    let v ← topSized insn 1
    push insn v
  | .dupX1 => do
    let v1 ← popSized insn 1
    let v2 ← popSized insn 1
    pushAll insn [v1, v2, v1]
  | .dupX2 => do
    let v1 ← popSized insn 1
    let v2 ← pop
    if (← size v2) = 2 then pushAll insn [v1, v2, v1]
    else
      let v3 ← popSized insn 1
      pushAll insn [v1, v3, v2, v1]
  | .dup2 => do
    let v1 ← pop
    if (← size v1) = 2 then pushAll insn [v1, v1]
    else
      let v2 ← popSized insn 1
      pushAll insn [v2, v1, v2, v1]
  | .dup2X1 => do
    let v1 ← pop
    if (← size v1) = 2 then
      let v2 ← popSized insn 1
      pushAll insn [v1, v2, v1]
    else
      let v2 ← popSized insn 1
      let v3 ← popSized insn 1
      pushAll insn [v2, v1, v3, v2, v1]
  | .dup2X2 => do
    let v1 ← pop
    if (← size v1) = 2 then
      let v2 ← pop
      if (← size v2) = 2 then pushAll insn [v1, v2, v1]
      else
        let v3 ← popSized insn 1
        pushAll insn [v1, v3, v2, v1]
    else
      let v2 ← popSized insn 1
      let v3 ← pop
      if (← size v3) = 2 then pushAll insn [v2, v1, v3, v2, v1]
      else
        let v4 ← popSized insn 1
        pushAll insn [v2, v1, v4, v3, v2, v1]
  | .swap => do
    let v2 ← popSized insn 1
    let v1 ← popSized insn 1
    pushAll insn [v2, v1]

/-- The descriptor that an invocation names. -/
def invokedDescriptor : Insn → Exec String
  | .method _ _ _ desc _ => return desc
  | .dynamic _ desc _ _ => return desc
  | insn => fault (.notInvocation insn)

/-- A projection of a type. -/
def ofProjection {α : Type} : Except TypeFault α → Exec α
  | .ok a => pure a
  | .error f => fault (.type f)

/-- **Invokes a method**: pops an entry for each parameter and, but for static and dynamic invocations,
one for the receiver, and pushes the result unless there is none. -/
def invoke (insn : Insn) : Exec Unit := do
  let desc ← invokedDescriptor insn
  match Desc.parseMethod desc with
  | .error e => fail (.badDescriptor e)
  | .ok t =>
    let arguments ← ofProjection t.arguments
    let receiver := insn.opcode ≠ .invokestatic ∧ insn.opcode ≠ .invokedynamic
    popMany (if receiver then arguments.length + 1 else arguments.length)
    let v ← ofExcept (Transfer.variadic insn)
    let result ← ofProjection t.result
    if result ≠ .void then push insn v

/-- Pops the upper and the lower operand and asks for the result. -/
def binary (insn : Insn) : Exec Slot := do
  let _ ← pop
  let lower ← pop
  ofExcept (Transfer.binary insn lower)

/-- Pops the operand and asks for the result. -/
def unary (insn : Insn) : Exec Slot := do
  let _ ← pop
  ofExcept (Transfer.unary insn)

/-- The run of an instruction with a known effect. -/
def perform (insn : Insn) : Effect → Exec Unit
  | .idle => return ()
  | .produce => do
    let v ← ofExcept (Transfer.nullary insn)
    push insn v
  | .load => do
    let i ← variableOf insn
    let v ← getLocal i
    push insn v
  | .store => do
    let i ← variableOf insn
    store i
  | .combine => do
    let v ← binary insn
    push insn v
  | .storeElement => popMany 3
  | .rearrange op => stackOp insn op
  | .convert => do
    let v ← unary insn
    push insn v
  | .increment =>
    match insn with
    | .iinc i _ => do
      let _ ← getLocal i
      let v ← ofExcept (Transfer.unary insn)
      setLocal i v
    | _ => fault .wrongNode
  | .consume | .returnValue => do
    let _ ← unary insn
  | .consumeTwo => do
    let _ ← binary insn
  | .returnVoid => do
    if (← get).result.isSome then fail .incompatibleReturn
  | .invoke => invoke insn
  | .multiArray =>
    match insn with
    | .multiArray _ dimensions => do
      if dimensions < 0 then fault .negativeSize
      popMany dimensions.toNat
      let v ← ofExcept (Transfer.variadic insn)
      push insn v
    | _ => fault .wrongNode

/-- **The run of an instruction.** -/
def execute (insn : Insn) : Exec Unit :=
  match insn.opcode.effect? with
  | some effect => perform insn effect
  | none => fault (.unhandledOpcode insn)

end Exec

/-- **The frame after an instruction.** -/
def Frame.execute (f : Frame) (insn : Insn) : Except (Halt Cause) Frame :=
  match (Exec.execute insn).run f with
  | .ok _ f' => .ok f'
  | .error h _ => .error h

end StackMap
