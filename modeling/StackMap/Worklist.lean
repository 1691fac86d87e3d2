import Std.Data.HashSet.Basic

/-!
# `Worklist`: elements waiting to be visited

A worklist is a queue in which an element waits at most once: the first one in is the first one out, and
an element that is waiting already is not queued again.

## Contents

* `Worklist`: a queue in two lists, with the set of waiting elements beside it for fast look-up.
* `Worklist.push`, `Worklist.pop?`: the operations.
* `Worklist.toList`: the waiting elements in order.
-/

namespace StackMap

/-- **Worklists.** The front of the queue is `front`, and its back is `back` in reverse order. -/
structure Worklist (α : Type) [BEq α] [Hashable α] where
  front : List α
  back : List α
  pending : Std.HashSet α

namespace Worklist

variable {α : Type} [BEq α] [Hashable α]

/-- The worklist without elements. -/
def empty : Worklist α := ⟨[], [], {}⟩

/-- The waiting elements, the first one to leave first. -/
def toList (w : Worklist α) : List α := w.front ++ w.back.reverse

/-- The number of waiting elements. -/
def length (w : Worklist α) : Nat := w.front.length + w.back.length

/-- Whether no element waits. -/
def isEmpty (w : Worklist α) : Bool := w.front.isEmpty && w.back.isEmpty

/-- **Queues an element** unless it waits already. -/
def push (w : Worklist α) (a : α) : Worklist α :=
  if w.pending.contains a then w
  else { w with back := a :: w.back, pending := w.pending.insert a }

/-- Whether `push` would add the element. -/
def adds (w : Worklist α) (a : α) : Bool := !w.pending.contains a

/-- **Takes the first element.** -/
def pop? (w : Worklist α) : Option (α × Worklist α) :=
  match w.front with
  | a :: front => some (a, { w with front, pending := w.pending.erase a })
  | [] =>
    match w.back.reverse with
    | a :: front => some (a, ⟨front, [], w.pending.erase a⟩)
    | [] => none

/-- Taking an element leaves one fewer. -/
theorem length_pop? {w w' : Worklist α} {a : α} (h : w.pop? = some (a, w')) :
    w.length = w'.length + 1 := by
  unfold pop? at h
  unfold length
  split at h
  · rename_i front hfront
    simp only [Option.some.injEq, Prod.mk.injEq] at h
    obtain ⟨rfl, rfl⟩ := h
    simp only [hfront, List.length_cons]
    omega
  · rename_i hfront
    split at h
    · rename_i front hback
      simp only [Option.some.injEq, Prod.mk.injEq] at h
      obtain ⟨rfl, rfl⟩ := h
      have hlen := congrArg List.length hback
      simp only [List.length_reverse, List.length_cons] at hlen
      simp [hfront, hlen]
    · simp at h

end Worklist

end StackMap
