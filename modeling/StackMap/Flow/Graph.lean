import StackMap.Code.Method
import StackMap.Value

/-!
# `Flow.Graph`: the control flow of a method

Control goes from an instruction to the next one, to the targets that it names, or nowhere, and from
every instruction that a handler covers to that handler. All of this is read off the instructions; no
frame matters.

## Contents

* `Handler`, `Graph`: the instructions of a method with the handlers that cover each of them.
* `Graph.ofMethod`: the graph of a method.
* `Graph.targets`, `Graph.handlersAt`: where control can go from an instruction.
* `Graph.Edge`, `Graph.Reachable`: the same as relations.
-/

namespace StackMap

/-- An exception handler, by position, with the value that it finds on the stack. -/
structure Handler where
  index : Nat
  caught : Value
  deriving Repr, DecidableEq

/-- A range of instructions that a handler covers, the last position not included. -/
structure Guard where
  first : Nat
  last : Nat
  handler : Handler
  deriving Repr, DecidableEq

/-- **The control flow of a method**: its instructions, the ranges of its handlers in order, and the
positions behind its subroutine calls. -/
structure Graph where
  method : Method
  guards : List Guard
  returnPoints : List Nat
  deriving Repr

namespace Graph

/-- The value that a handler for the given class finds; without a name it catches everything. -/
def caughtValue (type : String) : Value :=
  Value.ofClassName (if type = "" then "java/lang/Throwable" else type)

/-- The position of a label that a handler names. -/
def locate (m : Method) (l : Label) : Except Label Nat :=
  match m.position? l with
  | some i => .ok i
  | none => .error l

/-- The range of a handler. A label that is not in the list of instructions is the error. -/
def guardOf (m : Method) (block : TryCatch) : Except Label Guard := do
  let first ← locate m block.start
  let last ← locate m block.stop
  let index ← locate m block.handler
  return ⟨first, last, ⟨index, caughtValue block.type⟩⟩

/-- The positions behind the subroutine calls of a list of instructions. -/
def returnPointsOf (insns : Array Insn) : List Nat :=
  insns.toList.zipIdx.filterMap fun (insn, i) => if insn.opcode = .jsr then some (i + 1) else none

/-- **The control flow of a method.** A label of a handler that is not in the list of instructions is
the error. -/
def ofMethod (m : Method) : Except Label Graph := do
  return ⟨m, ← m.tryCatch.mapM (guardOf m), returnPointsOf m.insns⟩

/-- The handlers that cover an instruction, in order. -/
def handlersAt (g : Graph) (i : Nat) : List Handler :=
  (g.guards.filter fun r => r.first ≤ i && i < r.last).map (·.handler)

/-- **Where control can go behind an instruction**, in order. A named target that is not in the list of
instructions is given by its label. -/
def targets (g : Graph) (i : Nat) (insn : Insn) : List (Except Label Nat) :=
  if insn.opcode = .pseudo then [.ok (i + 1)]
  else match insn with
    | .jump op target =>
      if op.isConditionalJump then [.ok (i + 1), locate g.method target]
      else [locate g.method target]
    | .tableSwitch _ _ dflt labels => (dflt :: labels).map (locate g.method)
    | .lookupSwitch dflt _ labels => (dflt :: labels).map (locate g.method)
    | _ =>
      if insn.opcode = .ret then g.returnPoints.map .ok
      else if insn.opcode = .athrow || insn.opcode.isReturn then []
      else [.ok (i + 1)]

/-- An edge of the control flow, ordinary or exceptional. -/
inductive Edge (g : Graph) : Nat → Nat → Prop where
  | flow {i j : Nat} {insn : Insn} :
      g.method.insns[i]? = some insn → .ok j ∈ g.targets i insn → Edge g i j
  | exception {i : Nat} {insn : Insn} {h : Handler} :
      g.method.insns[i]? = some insn → h ∈ g.handlersAt i → Edge g i h.index

/-- The positions that control can reach from the first instruction. -/
inductive Reachable (g : Graph) : Nat → Prop where
  | start : Reachable g 0
  | step {i j : Nat} : Reachable g i → Edge g i j → Reachable g j

end Graph

end StackMap
