import StackMap.ClassFile.Pool
import StackMap.Code.Method

/-!
# `ClassFile.Code`: code in class files

A code array holds instructions of various lengths one behind the other. Branches name their targets by
the distance in bytes. Decoding turns the array into a list of instructions in general form, with a
label in front of every instruction that something refers to.

## Contents

* `readCallSite`, `decodeInsn`: the instruction at the cursor.
* `decodeAll`: the instructions of a code array with their offsets.
* `layOut`: the list of instructions with labels between them.
* `readCode`: the body of a method.
-/

namespace StackMap.ClassFile

/-- The label for an offset in a code block. -/
def labelAt (block : Nat) (offset : Int) : Label := ⟨"L" ++ Numeral.toText offset, block⟩

/-- An instruction, its offset in the code array, and the offsets that it refers to. -/
structure Placed where
  offset : Nat
  insn : Insn
  refs : List Int

/-- An instruction that refers to no offset. -/
abbrev still (insn : Insn) : Insn × List Int := (insn, [])

/-- A jump by a distance in bytes. -/
def jumpBy (block start : Nat) (op : Opcode) (distance : Int) : Insn × List Int :=
  let target := (start : Int) + distance
  (.jump op (labelAt block target), [target])

/-- The number of bytes up to the next multiple of four. -/
def padding (offset : Nat) : Nat := (4 - offset % 4) % 4

/-- The operands of a `tableswitch`. -/
def decodeTableSwitch (block start : Nat) : Reader (Insn × List Int) := do
  Reader.skip (padding (start + 1))
  let dflt := (start : Int) + (← Reader.s4)
  let low ← Reader.s4
  let high ← Reader.s4
  if high < low then Reader.fail (.switchRange low high)
  let targets ← Reader.times (do return (start : Int) + (← Reader.s4)) (high - low + 1).toNat
  return (.tableSwitch (Int32.ofInt low) (Int32.ofInt high) (labelAt block dflt)
    (targets.map (labelAt block)), dflt :: targets)

/-- The operands of a `lookupswitch`. -/
def decodeLookupSwitch (block start : Nat) : Reader (Insn × List Int) := do
  Reader.skip (padding (start + 1))
  let dflt := (start : Int) + (← Reader.s4)
  let count ← Reader.s4
  let cases ← Reader.times (do
    let key ← Reader.s4
    return (key, (start : Int) + (← Reader.s4))) count.toNat
  return (.lookupSwitch (labelAt block dflt) (cases.map fun c => Int32.ofInt c.1)
    (cases.map fun c => labelAt block c.2), dflt :: cases.map (·.2))

/-- The instruction behind `wide`. -/
def decodeWide : Reader Insn := do
  let code ← Reader.u1
  let index ← Reader.u2
  let op : Opcode := ⟨code⟩
  if op = .iinc then return .iinc index (← Reader.s2)
  else if op.isLoad || op.isStore || op = .ret then return .var op index
  else Reader.fail (.badWideOpcode code)

/-- **The call site of an `invokedynamic`**, whose number has two more bytes behind it. It is resolved before
these are missed: a resolution without end never comes to them, and if they are missing, no other outcome
of it shows. -/
def readCallSite (pool : Pool) : Reader (String × String × Handle × List Constant) := do
  match pool.callSite (← Reader.u2) with
  | .error .endlessConstant => Reader.fail .endlessConstant
  | site =>
    Reader.skip 2
    Reader.ofExcept site

/-- Whether an operation code stands alone. -/
def standsAlone (op : Opcode) : Bool :=
  op.between 0x00 0x0f || op.between 0x2e 0x35 || op.between 0x4f 0x83 || op.between 0x85 0x98 ||
    op.between 0xac 0xb1 || op.between 0xbe 0xbf || op.between 0xc2 0xc3

/-- **The instruction at the cursor**, which stands at the offset `start`. -/
def decodeInsn (pool : Pool) (block start : Nat) : Reader (Insn × List Int) := do
  let code ← Reader.u1
  let op : Opcode := ⟨code⟩
  if standsAlone op then return still (.plain op)
  else if op = .bipush then return still (.int op (← Reader.s1))
  else if op = .sipush then return still (.int op (← Reader.s2))
  else if op = .newarray then return still (.int op (← Reader.u1))
  else if op = .ldc then
    let i ← Reader.u1
    return still (.ldc (some (← Reader.ofExcept (pool.loadable i))))
  else if op.between 0x13 0x14 then
    let i ← Reader.u2
    return still (.ldc (some (← Reader.ofExcept (pool.loadable i))))
  else if op.isLoad || op.isStore || op = .ret then return still (.var op (← Reader.u1))
  else if op.between 0x1a 0x2d || op.between 0x3b 0x4e then
    let (general, index) := op.normalize
    return still (.var general (index.getD 0))
  else if op = .iinc then
    let index ← Reader.u1
    return still (.iinc index (← Reader.s1))
  else if op.isJump then return jumpBy block start op (← Reader.s2)
  else if op.between 0xc8 0xc9 then return jumpBy block start op.normalize.1 (← Reader.s4)
  else if op = .tableswitch then decodeTableSwitch block start
  else if op = .lookupswitch then decodeLookupSwitch block start
  else if op.isFieldAccess then
    let m ← Reader.ofExcept (pool.member [9] (← Reader.u2))
    return still (.field op m.owner m.name m.desc)
  else if op.isMethodCall then
    let m ← Reader.ofExcept (pool.member [10, 11] (← Reader.u2))
    if op = .invokeinterface then Reader.skip 2
    return still (.method op m.owner m.name m.desc m.itf)
  else if op = .invokedynamic then
    let (name, desc, h, args) ← readCallSite pool
    return still (.dynamic name desc (some h) args)
  else if op = .new || op = .anewarray || op = .checkcast || op = .instanceof then
    return still (.type op (← Reader.ofExcept (pool.className (← Reader.u2))))
  else if op = .wide then return still (← decodeWide)
  else if op = .multianewarray then
    let desc ← Reader.ofExcept (pool.className (← Reader.u2))
    let dimensions ← Reader.u1
    if dimensions = 0 then Reader.fail .noDimensions
    return still (.multiArray desc dimensions)
  else Reader.fail (.badOpcode code)

/-- The instructions of a code array from the cursor on; each takes at least a byte, so `fuel` is the
number of bytes. -/
def decodeFrom (pool : Pool) (block : Nat) : (fuel : Nat) → Cursor → Except ClassError (List Placed)
  | 0, _ => .ok []
  | fuel + 1, cursor =>
    if cursor.rest.isEmpty then .ok []
    else match decodeInsn pool block cursor.offset cursor with
      | .error e => .error (e.inside (.instruction cursor.offset))
      | .ok ((insn, refs), next) => do
        return ⟨cursor.offset, insn, refs⟩ :: (← decodeFrom pool block fuel next)

/-- **The instructions of a code array.** -/
def decodeAll (pool : Pool) (block : Nat) (code : List UInt8) : Except ClassError (List Placed) :=
  decodeFrom pool block code.length ⟨code, 0⟩

/-- **The list of instructions with labels**: one in front of each instruction that something refers
to, and one at the end if something refers to that. -/
def layOut (block : Nat) (placed : List Placed) (size : Nat) (refs : List Int) : List Insn :=
  placed.flatMap (fun p =>
    if refs.contains (p.offset : Int) then [.label (labelAt block p.offset), p.insn] else [p.insn]) ++
    if refs.contains (size : Int) then [.label (labelAt block size)] else []

/-- The first reference to an offset at which no instruction starts. -/
def strayRef? (placed : List Placed) (size : Nat) (refs : List Int) : Option Int :=
  refs.find? fun r => r != size && !placed.any (fun p => (p.offset : Int) == r)

/-- A row of the exception table, with the offsets that it refers to. -/
def readHandler (pool : Pool) (block : Nat) : Reader (TryCatch × List Int) := do
  let start ← Reader.u2
  let stop ← Reader.u2
  let handler ← Reader.u2
  let catchType ← Reader.u2
  let type ← if catchType = 0 then pure ""
    else Reader.ofExceptIn .exceptionTable (pool.className catchType)
  return (⟨labelAt block start, labelAt block stop, labelAt block handler, type⟩,
    [(start : Int), stop, handler])

/-- Passes over attributes. -/
def skipAttributes : Reader Unit := do
  let count ← Reader.u2
  let _ ← Reader.times (do
    Reader.skip 2
    Reader.skip (← Reader.u4)) count

/-- **Reads the body of a method** into it, as its code block with the given number. -/
def readCode (pool : Pool) (block : Nat) (m : Method) : Reader Method := do
  let maxStack ← Reader.u2
  let maxLocals ← Reader.u2
  let code ← Reader.bytes (← Reader.u4)
  let placed ← liftM (decodeAll pool block code)
  let handlers ← Reader.times (readHandler pool block) (← Reader.u2)
  skipAttributes
  let refs := placed.flatMap (·.refs) ++ handlers.flatMap (·.2)
  match strayRef? placed code.length refs with
  | some offset => Reader.fail (.notBoundary offset)
  | none =>
    return { m with
      maxStack, maxLocals
      insns := m.insns ++ layOut block placed code.length refs
      tryCatch := m.tryCatch ++ handlers.map (·.1) }

end StackMap.ClassFile
