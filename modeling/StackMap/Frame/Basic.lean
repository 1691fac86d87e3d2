import StackMap.Frame.Error

/-!
# `Frame.Basic`: frames

A frame is what is known before an instruction: a slot for each local variable and for each entry of the
operand stack. A `long` or `double` takes two local variables, the second of which holds `uninit`, and
one entry of the stack.

## Contents

* `Frame`: locals, stack, its bound, and the value that the method returns.
* `Frame.make`, `Frame.local?`, `Frame.setLocal`, `Frame.push`, `Frame.pop`, `Frame.top`: the operations.
* `Frame.merge`: the join of two frames, slot by slot.
* `Frame.text`: all slots in a line.
-/

namespace StackMap

/-- **Frames.** The stack has its top first. A bound of zero means that the stack is not bounded. -/
structure Frame where
  locals : Array Slot
  stack : List Slot
  maxStack : Nat
  result : Slot
  deriving Repr, DecidableEq

namespace Frame

/-- A frame whose local variables hold nothing. -/
def make (locals maxStack : Int) : Except Fault Frame :=
  if locals < 0 ∨ maxStack < 0 then .error .negativeSize
  else .ok ⟨Array.replicate locals.toNat none, [], maxStack.toNat, none⟩

/-- Whether a local variable exists. -/
def hasLocal (f : Frame) (i : Int) : Bool := 0 ≤ i && i < f.locals.size

/-- The slot of a local variable. -/
def local? (f : Frame) (i : Int) : Except Cause Slot :=
  if f.hasLocal i then .ok (f.locals[i.toNat]?.getD none)
  else .error (.localOutOfRange i f.locals.size)

/-- The frame with another slot for a local variable. -/
def setLocal (f : Frame) (i : Int) (v : Slot) : Except Cause Frame :=
  if f.hasLocal i then .ok { f with locals := f.locals.setIfInBounds i.toNat v }
  else .error (.localOutOfRange i f.locals.size)

/-- The frame with a further entry on its stack, which must not be at its bound. -/
def push (f : Frame) (v : Slot) : Except Cause Frame :=
  if 0 < f.maxStack ∧ f.maxStack ≤ f.stack.length then .error .stackOverflow
  else .ok { f with stack := v :: f.stack }

/-- The top of the stack, and the frame without it. -/
def pop (f : Frame) : Except Cause (Slot × Frame) :=
  match f.stack with
  | [] => .error .stackUnderflow
  | v :: rest => .ok (v, { f with stack := rest })

/-- The top of the stack. -/
def top (f : Frame) : Except Cause Slot :=
  match f.stack with
  | [] => .error .stackUnderflow
  | v :: _ => .ok v

/-- The frame with an empty stack. -/
def clearStack (f : Frame) : Frame := { f with stack := [] }

/-- The slot-wise join of two frames of equal shape. -/
def join (f g : Frame) : Frame :=
  { f with
    locals := Array.zipWith Slot.merge f.locals g.locals
    stack := List.zipWith Slot.merge f.stack g.stack }

/-- **The join of a frame with another one** that reaches the same instruction. Their stacks have to be
of the same height. -/
def merge (f g : Frame) : Except (Halt Cause) Frame :=
  if f.stack.length ≠ g.stack.length then
    .error (.failed (.stackHeights f.stack.length g.stack.length))
  else if f.locals.size ≠ g.locals.size then
    .error (.fault (.localCounts f.locals.size g.locals.size))
  else .ok (f.join g)

/-- All slots of a frame in a line: the locals, a space, and the stack from the bottom. -/
def text (f : Frame) : String :=
  String.join (f.locals.toList.map Slot.text) ++ " " ++
    String.join (f.stack.reverse.map Slot.text)

end Frame

end StackMap
