import StackMap.Proofs.Frame.Composed
import StackMap.Proofs.Frame.Fault
import StackMap.Proofs.Frame.Monotone

/-!
# `Proofs.Frame.Locals`: what instructions do to local variables

A store writes its own variable and those beside it, an increment its own, and no other instruction writes any.
This holds of every run, also of one that stops on the way, so a handler finds the variables as they were but
for these few. Behind a store that succeeds each of the three is known.

## Contents

* `Frame.Confined`: a frame that differs from another one as an instruction allows.
* `Exec.Composed.confined`: the frame behind a run does.
* `Frame.Stored`: what a store leaves behind.
* `Frame.execute_confined`: instructions keep to their local variables.
-/

namespace StackMap

namespace Frame

variable {insn : Insn} {f g h : Frame}

/-! ## All runs -/

/-- **What an instruction may change** besides the stack. -/
structure Confined (insn : Insn) (f g : Frame) : Prop where
  peer : f.Peer g
  locals : ∀ j : Nat, g.locals[j]? = f.locals[j]? ∨ ∃ v, insn.Writes j v ∧ g.locals[j]? = some v

theorem Confined.refl (f : Frame) : f.Confined insn f := ⟨.refl f, fun _ => .inl rfl⟩

theorem Confined.trans (hfg : f.Confined insn g) (hgh : g.Confined insn h) : f.Confined insn h := by
  refine ⟨hfg.peer.trans hgh.peer, fun j => ?_⟩
  rcases hgh.locals j with hj | hwritten
  · rw [hj]
    exact hfg.locals j
  · exact .inr hwritten

theorem Confined.of_stack (f : Frame) (stack : List Slot) : f.Confined insn { f with stack } :=
  ⟨⟨rfl, rfl, rfl⟩, fun _ => .inl rfl⟩

theorem Confined.of_write {i : Int} {v : Slot} (hwrites : insn.Writes i v) (hi : f.hasLocal i) :
    f.Confined insn { f with locals := f.locals.setIfInBounds i.toNat v } := by
  refine ⟨⟨(Array.size_setIfInBounds ..).symm, rfl, rfl⟩, fun j => ?_⟩
  obtain ⟨k, rfl, hk⟩ := hasLocal_iff.mp hi
  rw [Int.toNat_natCast]
  by_cases hj : k = j
  · subst hj
    exact .inr ⟨v, hwrites, Array.getElem?_setIfInBounds_self_of_lt hk⟩
  · exact .inl (Array.getElem?_setIfInBounds_ne hj)

/-- An instruction that writes no local variable leaves all of them alone. -/
theorem Confined.locals_eq (hfg : f.Confined insn g) (hno : ∀ i v, ¬ insn.Writes i v) :
    g.locals = f.locals := by
  refine Array.ext_getElem? fun j => (hfg.locals j).resolve_right ?_
  rintro ⟨v, hwrites, -⟩
  exact hno j v hwrites

end Frame

/-- **Every composed run is confined**, also if it halts. -/
theorem Exec.Composed.confined {insn : Insn} {α : Type} {x : Exec α} (h : Composed insn x) (f : Frame) :
    f.Confined insn (x.after f) :=
  h.rel_after Frame.Confined.refl Frame.Confined.trans Frame.Confined.of_stack
    (fun _ _ _ => Frame.Confined.of_write) f

namespace Frame

variable {insn : Insn} {f g : Frame}

/-! ## Stores -/

/-- **What a store leaves behind**: `v` is popped and stored to the variable `k`. Nothing is known of the next
variable if `v` takes it too, nor of the one before if it held a value that took `k` too. -/
structure Stored (f : Frame) (k : Nat) (v : Slot) (g : Frame) : Prop where
  popped : f.stack = v :: g.stack
  own : g.locals[k]? = some v
  next : g.locals[k + 1]? = if v.width = some 2 then some (some .uninit) else f.locals[k + 1]?
  previous : ∀ j, j + 1 = k →
    g.locals[j]? = f.locals[j]?.map fun old : Slot => if old.width = some 2 then some .uninit else old

theorem stored_of_storable {k : Nat} {v : Slot} {rest : List Slot} (hstack : f.stack = v :: rest)
    (hst : Storable f.locals k v) :
    f.Stored k v { f with locals := storedLocals f.locals k v, stack := rest } := by
  refine ⟨hstack, ?own, ?next, fun j hj => ?previous⟩
  case own =>
    show (storedLocals f.locals k v)[k]? = some v
    rw [getElem?_storedLocals, Array.getElem?_eq_getElem hst.inside, Option.map_some, if_pos rfl]
  case next =>
    show (storedLocals f.locals k v)[k + 1]? = _
    rw [getElem?_storedLocals]
    by_cases hwide : v.width = some 2
    · rw [Array.getElem?_eq_getElem (hst.next hwide), Option.map_some, if_neg (by omega),
        if_pos (.inl ⟨rfl, hwide⟩), if_pos hwide]
    · have hprevious : k + 1 + 1 ≠ k := by omega
      simp [hwide, hprevious]
  case previous =>
    show (storedLocals f.locals k v)[j]? = _
    rw [getElem?_storedLocals]
    have hown : j ≠ k := by omega
    have hnext : j ≠ k + 1 := by omega
    simp only [hown, hnext, hj, if_false, false_and, false_or, true_and]

/-- A store that succeeds. -/
theorem stored_of_execute {op : Opcode} {i : Int} (hop : op.isStore)
    (hrun : f.execute (.var op i) = .ok g) : ∃ (k : Nat) (v : Slot), i = k ∧ f.Stored k v g := by
  obtain ⟨heffect, hacts, rest, hstack, -, -, rfl⟩ := execute_eq_ok_iff.mp hrun
  rw [show (Insn.var op i).opcode.effect? = some .store from Opcode.effect?_of_isStore hop] at heffect
  cases heffect
  cases hacts with
  | @store _ _ k v hinsn hst =>
    cases hinsn
    exact ⟨k, v, rfl, stored_of_storable hstack hst⟩

/-! ## Instructions -/

/-- **Instructions keep to their local variables.** Whether it succeeds or halts, an instruction leaves a frame
of the same method behind, in which every local variable is as before or holds what the instruction may write
to it. So an instruction that writes none leaves all of them alone, and behind a store that succeeds its own
variable and those beside it are known. -/
theorem execute_confined (f : Frame) (insn : Insn) :
    let f' := (Exec.execute insn).after f
    f.Peer f' ∧
    (∀ j : Nat, f'.locals[j]? = f.locals[j]? ∨ ∃ v, insn.Writes j v ∧ f'.locals[j]? = some v) ∧
    ((∀ i v, ¬ insn.Writes i v) → f'.locals = f.locals) ∧
    (∀ g, f.execute insn = .ok g → g = f') ∧
    (∀ op i, insn = .var op i → op.isStore → f.execute insn = .ok f' →
      ∃ (k : Nat) (v : Slot), i = k ∧ f.Stored k v f') := by
  intro f'
  have hconfined := (Exec.composed_execute insn).confined f
  refine ⟨hconfined.peer, hconfined.locals, hconfined.locals_eq, fun g hrun => ?_, ?_⟩
  · exact (Exec.after_of_ok (execute_eq_ok_iff_run.mp hrun)).symm
  · rintro op i rfl hop hrun
    exact stored_of_execute hop hrun

/-- Two stores of a `double`. The first one also takes the next variable and destroys the `long` before. The
second one finds no next variable and halts, behind the write to its own. -/
theorem execute_confined_dstore :
    let f : Frame := ⟨#[some .long, some .uninit, some .int], [some .double], 0, none⟩
    let g : Frame := ⟨#[some .uninit, some .double, some .uninit], [], 0, none⟩
    f.execute (.var ⟨0x39⟩ 1) = .ok g ∧ f.Stored 1 (some .double) g ∧
      f.execute (.var ⟨0x39⟩ 2) = .error (.failed (.localOutOfRange 3 3)) ∧
      ((Exec.execute (.var ⟨0x39⟩ 2)).after f).locals[2]? = some (some .double) ∧
      ((Exec.execute (.var ⟨0x39⟩ 2)).after f).locals[0]? = some (some .long) := by
  intro f g
  have hrun : f.execute (.var ⟨0x39⟩ 1) = .ok g := rfl
  obtain ⟨-, -, -, hafter, hstored⟩ := execute_confined f (.var ⟨0x39⟩ 1)
  obtain ⟨k, v, hk, hkv⟩ := hstored _ _ rfl rfl (hafter g hrun ▸ hrun)
  rw [← hafter g hrun] at hkv
  obtain rfl : k = 1 := by omega
  obtain rfl : v = some .double := (List.cons.inj hkv.popped).1.symm
  refine ⟨hrun, hkv, rfl, rfl, ?_⟩
  -- No write of this store is to the first variable.
  obtain ⟨-, hlocals, -⟩ := execute_confined f (.var ⟨0x39⟩ 2)
  refine (hlocals 0).resolve_right ?_
  rintro ⟨v, hwrites, -⟩
  generalize hj : ((0 : Nat) : Int) = j at hwrites
  cases hwrites with
  | store => exact absurd hj (by decide)
  | next => exact absurd hj (by decide)
  | previous => exact absurd hj (by decide)

end Frame

end StackMap
