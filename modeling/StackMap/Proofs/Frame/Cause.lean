import StackMap.Frame.Transfer

/-!
# `Proofs.Frame.Cause`: the causes that a frame alone can give

What is wrong with an instruction in a frame is wrong with its operands, with the height of the stack or with
a local variable. That a label is unknown, that stacks of different heights meet and that control leaves the
code are not seen in one frame, and no transfer function gives them as its cause. Nor does one ever blame a
local variable, since it sees the operands only.

## Contents

* `Cause.Local`: the causes that are seen in one frame.
* `Cause.Operand`: those of them that do not blame a local variable.
* `Transfer.Blames`: outcomes that fail with such causes only.
-/

namespace StackMap

/-- **The causes that are seen in one frame.** -/
def Cause.Local : Cause → Prop
  | .unknownLabel _ | .stackHeights .. | .fallOffEnd => False
  | _ => True

/-- **The causes that are seen in one frame and do not blame a local variable.** -/
def Cause.Operand : Cause → Prop
  | .localOutOfRange .. => False
  | c => c.Local

theorem Cause.Operand.toLocal {c : Cause} (h : c.Operand) : c.Local := by
  cases c with
  | localOutOfRange index count => exact h.elim
  | _ => exact h

theorem Cause.Operand.kind_ne {c : Cause} (h : c.Operand) : c.kind ≠ .localOutOfRange := by
  cases c with
  | localOutOfRange index count => exact h.elim
  | _ => exact nofun

/-! ## Transfer functions -/

namespace Transfer

/-- **Outcomes with causes that are seen in one frame** and do not blame a local variable. -/
def Blames : Except (Halt Cause) Slot → Prop
  | .error (.failed c) => c.Operand
  | _ => True

variable {insn : Insn}

theorem blames_ite {p : Prop} [Decidable p] {x y : Except (Halt Cause) Slot} (hx : Blames x)
    (hy : Blames y) : Blames (if p then x else y) := by
  split
  · exact hx
  · exact hy

theorem blames_result (t : Ty) : Blames (result t) := by
  cases t <;> trivial

theorem blames_ofDescriptor (desc : String) : Blames (ofDescriptor desc) := by
  unfold ofDescriptor
  split
  · trivial
  · trivial
  · trivial
  · exact blames_result _

theorem blames_ofConstant (c : Option Constant) : Blames (ofConstant c) := by
  unfold ofConstant
  split
  any_goals trivial
  -- A dynamic constant is left.
  split
  · trivial
  · trivial
  · trivial
  · exact blames_result _

theorem blames_ofField : Blames (ofField insn) := by
  unfold ofField
  split
  · exact blames_ofDescriptor _
  · trivial

theorem blames_ofComponent (v : Slot) : Blames (ofComponent v) := by
  unfold ofComponent
  split
  · trivial
  · split
    · exact blames_result _
    · trivial
  · trivial

theorem blames_ofInvocation (desc : String) : Blames (ofInvocation desc) := by
  unfold ofInvocation
  split
  · trivial
  · split
    · exact blames_result _
    · trivial
  · trivial

theorem blames_nullary : Blames (nullary insn) := by
  unfold nullary
  refine blames_ite trivial (blames_ite trivial (blames_ite trivial (blames_ite trivial (blames_ite trivial
    (blames_ite ?ldc (blames_ite trivial (blames_ite blames_ofField (blames_ite ?new trivial))))))))
  case ldc =>
    split
    · exact blames_ofConstant _
    · trivial
  case new =>
    split
    · trivial
    · trivial

theorem blames_unary : Blames (unary insn) := by
  unfold unary
  dsimp only
  split
  · trivial
  refine blames_ite trivial (blames_ite blames_ofField (blames_ite ?newarray (blames_ite ?anewarray
    (blames_ite ?checkcast trivial))))
  case newarray =>
    split
    · split
      · trivial
      · trivial
    · trivial
  case anewarray =>
    split
    · exact blames_ofDescriptor _
    · trivial
  case checkcast =>
    split
    · trivial
    · trivial

theorem blames_binary (lower : Slot) : Blames (binary insn lower) := by
  unfold binary
  dsimp only
  split
  · trivial
  · exact blames_ite (blames_ofComponent lower) (blames_ite trivial trivial)

theorem blames_variadic : Blames (variadic insn) := by
  unfold variadic
  split
  · exact blames_ofDescriptor _
  · exact blames_ofInvocation _
  · exact blames_ofInvocation _
  · trivial

end Transfer

end StackMap
