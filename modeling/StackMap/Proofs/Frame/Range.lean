import StackMap.Proofs.Frame.Locals

/-!
# `Proofs.Frame.Range`: local variables that do not exist

A frame has so many local variables, and an instruction is refused if it needs another one. Which ones it needs
can mostly be read off the instruction: it reads and writes those that it names, and no run changes how many
there are. A store is the exception. How many variables it writes depends on the value that it finds on the
stack, so it may need the variable behind the one that it names.

## Contents

* `Exec.Composed.missing_of_run`: a run blames a local variable that the instruction reads or writes.
* `Exec.run_forget_ne_failed`: a store does not fail at the variable before its own.
* `Exec.wide_of_store`: a store whose variable exists fails at the next one, with a value that takes both.
* `Frame.missing_of_execute`, `Frame.wide_of_execute`: the same for instructions.
-/

namespace StackMap

theorem Frame.Peer.hasLocal_eq {f g : Frame} (h : f.Peer g) (i : Int) : g.hasLocal i = f.hasLocal i := by
  unfold Frame.hasLocal
  rw [h.locals]

theorem Frame.hasLocal_of_lt {f : Frame} {i : Int} (hpos : 0 ≤ i) (hlt : i < f.locals.size) : f.hasLocal i := by
  unfold hasLocal
  rw [decide_eq_true hpos, decide_eq_true hlt]
  rfl

/-- The values of size two. -/
theorem Slot.eq_of_wide {v : Slot} (h : v.width = some 2) : v = some .long ∨ v = some .double := by
  obtain ⟨x, rfl, hx⟩ := Option.map_eq_some_iff.mp h
  cases x with
  | long => exact .inl rfl
  | double => exact .inr rfl
  | _ => exact nomatch hx

namespace Exec

variable {α : Type} {insn : Insn} {f f' : Frame} {c : Cause} {i : Int}

/-! ## All runs -/

/-- **A run blames a local variable only if the instruction reads or writes one that does not exist.** The
variables that exist are the same at all times of the run. -/
theorem Composed.missing_of_run {x : Exec α} (h : Composed insn x) :
    ∀ {f c f'}, x.run f = .error (.failed c) f' → c.kind = .localOutOfRange →
      ∃ i, (insn.Reads i ∨ ∃ v, insn.Writes i v) ∧ ¬ f.hasLocal i := by
  induction h with
  | pure | fault =>
    intro f c f' hrun
    exact nomatch hrun
  | fail hoperand =>
    intro f c f' hrun hkind
    cases hrun
    exact absurd hkind hoperand.kind_ne
  | @bind _ _ x k hx _ ihx ihk =>
    intro f c f' hrun hkind
    cases hfirst : x.run f with
    | ok a g =>
      -- The second part blames a variable of the frame that the first one leaves.
      rw [run_bind_of_ok hfirst] at hrun
      obtain ⟨i, htouched, hmissing⟩ := ihk a hrun hkind
      have hpeer := (hx.confined f).peer
      rw [after_of_ok hfirst] at hpeer
      exact ⟨i, htouched, hpeer.hasLocal_eq i ▸ hmissing⟩
    | error halt g =>
      rw [run_bind_of_error hfirst] at hrun
      cases hrun
      exact ihx hfirst hkind
  | pop =>
    intro f c f' hrun hkind
    rw [run_pop] at hrun
    split at hrun
    · cases hrun
      exact nomatch hkind
    · cases hrun
  | top =>
    intro f c f' hrun hkind
    rw [run_top] at hrun
    split at hrun
    · cases hrun
      exact nomatch hkind
    · cases hrun
  | push v =>
    intro f c f' hrun hkind
    rw [run_push] at hrun
    split at hrun
    · cases hrun
      exact nomatch hkind
    split at hrun
    · cases hrun
      exact nomatch hkind
    · cases hrun
  | @getLocal i hreads =>
    intro f c f' hrun hkind
    rw [run_getLocal] at hrun
    split at hrun
    · cases hrun
    · rename_i hmissing
      exact ⟨i, .inl hreads, hmissing⟩
  | @setLocal i v hwrites =>
    intro f c f' hrun hkind
    rw [run_setLocal] at hrun
    split at hrun
    · cases hrun
    · rename_i hmissing
      exact ⟨i, .inr ⟨v, hwrites⟩, hmissing⟩
  | result _ ih =>
    intro f c f' hrun hkind
    exact ih f.result hrun hkind

/-! ## Stores -/

/-- **A store does not fail at the variable before its own**, since that exists if its own does. -/
theorem run_forget_ne_failed (hi : f.hasLocal i) : (forget i).run f ≠ .error (.failed c) f' := by
  intro hrun
  unfold forget at hrun
  split at hrun
  · rename_i hpos
    have hprevious : f.hasLocal (i - 1) := by
      obtain ⟨k, rfl, hk⟩ := Frame.hasLocal_iff.mp hi
      exact Frame.hasLocal_iff.mpr ⟨k - 1, by omega, by omega⟩
    have hget := run_getLocal (f := f) (i - 1)
    rw [if_pos hprevious] at hget
    rw [run_bind_of_ok hget] at hrun
    generalize f.locals[(i - 1).toNat]?.getD none = previous at hrun
    cases previous with
    | none => exact nomatch hrun
    | some x =>
      have hsize : (size (some x)).run f = .ok x.size f := rfl
      rw [run_bind_of_ok hsize] at hrun
      split at hrun
      · rw [run_setLocal, if_pos hprevious] at hrun
        exact nomatch hrun
      · exact nomatch hrun
  · exact nomatch hrun

/-- A store whose variable exists puts the value there, and goes on with its size. -/
theorem run_store_of_stack (hi : f.hasLocal i) {v : Slot} {rest : List Slot} (hstack : f.stack = v :: rest) :
    (store i).run f = (do
      if (← size v) = 2 then setLocal (i + 1) (some .uninit) >>= fun _ => forget i else forget i).run
        { f with stack := rest, locals := f.locals.setIfInBounds i.toNat v } := by
  have hpop : pop.run f = .ok v { f with stack := rest } := by rw [run_pop, hstack]
  have hset : (setLocal i v).run { f with stack := rest } =
      .ok () { f with stack := rest, locals := f.locals.setIfInBounds i.toNat v } := by
    rw [run_setLocal]
    exact if_pos hi
  rw [store_eq, run_bind_of_ok hpop, run_bind_of_ok hset]

/-- **Behind the value, only the second variable of a wide one can be missing.** -/
theorem wide_of_store_rest {g : Frame} {v : Slot} (hi : g.hasLocal i)
    (hrun : (do if (← size v) = 2 then setLocal (i + 1) (some .uninit) >>= fun _ => forget i else forget i).run g =
      .error (.failed c) f') :
    v.width = some 2 ∧ ¬ g.hasLocal (i + 1) ∧ c = .localOutOfRange (i + 1) g.locals.size := by
  cases v with
  | none => exact nomatch hrun
  | some x =>
    have hsize : (size (some x)).run g = .ok x.size g := rfl
    rw [run_bind_of_ok hsize] at hrun
    split at hrun
    · rename_i hwide
      have hclear := run_setLocal (f := g) (i + 1) (some .uninit)
      by_cases hnext : g.hasLocal (i + 1)
      · rw [if_pos hnext] at hclear
        rw [run_bind_of_ok hclear] at hrun
        -- The second variable exists, and so does the first one still.
        refine absurd hrun (run_forget_ne_failed ?_)
        unfold Frame.hasLocal
        rw [Array.size_setIfInBounds]
        exact hi
      · rw [if_neg hnext] at hclear
        rw [run_bind_of_error hclear] at hrun
        cases hrun
        exact ⟨congrArg some hwide, hnext, rfl⟩
    · exact absurd hrun (run_forget_ne_failed hi)

/-- **A store whose variable exists fails at the next one**, and it does so for a value that takes both. -/
theorem wide_of_store (hi : f.hasLocal i) (hrun : (store i).run f = .error (.failed c) f')
    (hkind : c.kind = .localOutOfRange) :
    ∃ v rest, f.stack = v :: rest ∧ v.width = some 2 ∧ ¬ f.hasLocal (i + 1) ∧
      c = .localOutOfRange (i + 1) f.locals.size := by
  cases hstack : f.stack with
  | nil =>
    have hpop : pop.run f = .error (.failed .stackUnderflow) f := by rw [run_pop, hstack]
    rw [store_eq, run_bind_of_error hpop] at hrun
    cases hrun
    exact nomatch hkind
  | cons v rest =>
    rw [run_store_of_stack hi hstack] at hrun
    generalize hg : { f with stack := rest, locals := f.locals.setIfInBounds i.toNat v } = g at hrun
    have hcount : g.locals.size = f.locals.size := by
      rw [← hg]
      exact Array.size_setIfInBounds ..
    have hhas : ∀ j, g.hasLocal j = f.hasLocal j := by
      intro j
      unfold Frame.hasLocal
      rw [hcount]
    obtain ⟨hwide, hnext, hcause⟩ := wide_of_store_rest ((hhas i).trans hi) hrun
    rw [hhas] at hnext
    rw [hcount] at hcause
    exact ⟨v, rest, rfl, hwide, hnext, hcause⟩

end Exec

namespace Frame

variable {insn : Insn} {f : Frame} {c : Cause}

/-! ## Instructions -/

/-- **An instruction blames a local variable only if it reads or writes one that does not exist.** -/
theorem missing_of_execute (h : f.execute insn = .error (.failed c)) (hkind : c.kind = .localOutOfRange) :
    ∃ i, (insn.Reads i ∨ ∃ v, insn.Writes i v) ∧ ¬ f.hasLocal i := by
  obtain ⟨f', hrun⟩ := execute_eq_error_iff_run.mp h
  exact (Exec.composed_execute insn).missing_of_run hrun hkind

/-- **A store whose variable exists blames the next one**, and it does so for a value that takes both. -/
theorem wide_of_execute {op : Opcode} {i : Int} (hop : op.isStore) (hi : f.hasLocal i)
    (h : f.execute (.var op i) = .error (.failed c)) (hkind : c.kind = .localOutOfRange) :
    ∃ v rest, f.stack = v :: rest ∧ v.width = some 2 ∧ ¬ f.hasLocal (i + 1) ∧
      c = .localOutOfRange (i + 1) f.locals.size := by
  obtain ⟨f', hrun⟩ := execute_eq_error_iff_run.mp h
  have hexecute : Exec.execute (.var op i) = Exec.store i := by
    unfold Exec.execute
    rw [show (Insn.var op i).opcode.effect? = some .store from Opcode.effect?_of_isStore hop]
    rfl
  rw [hexecute] at hrun
  exact Exec.wide_of_store hi hrun hkind

end Frame

end StackMap
