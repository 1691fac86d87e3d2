import StackMap.Proofs.Frame.Cause
import StackMap.Proofs.Frame.Rearrange

/-!
# `Proofs.Frame.Composed`: the operations that instructions are composed of

The run of an instruction is a sequence of operations on the frame: it pops and pushes entries, looks at the
top of the stack, and reads and writes local variables. What all these operations have in common holds of
every instruction, whether it succeeds or stops on the way. `Exec.composed_execute` goes through the
instructions once; a property of all runs then takes one case for each operation and one for sequences.

## Contents

* `Insn.Reads`, `Insn.Writes`: the local variables that an instruction may read, and write and with what.
* `Exec.Composed`: runs that are composed of the operations.
* `Exec.composed_execute`: the run of an instruction is.
* `Exec.after`, `Exec.Composed.rel_after`: the frame behind a run, and what relates it to the one before.
* `Frame.local_of_execute`: an instruction fails with causes that are seen in one frame.
-/

namespace StackMap

/-! ## The local variables of an instruction -/

/-- **`insn.Reads i`**: the instruction may read the local variable `i`. A store also reads the one before its
own, if there is one. -/
inductive Insn.Reads : Insn → Int → Prop where
  | own {op : Opcode} {i : Int} : Reads (.var op i) i
  | previous {op : Opcode} {i : Int} (hop : op.isStore) (hi : 0 < i) : Reads (.var op i) (i - 1)
  | increment {i amount : Int} : Reads (.iinc i amount) i

/-- **`insn.Writes i v`**: the instruction may write `v` to the local variable `i`. A store also writes to the
variables beside its own, and then that nothing is known of them. -/
inductive Insn.Writes : Insn → Int → Slot → Prop where
  | store {op : Opcode} {i : Int} (hop : op.isStore) (v : Slot) : Writes (.var op i) i v
  | next {op : Opcode} {i : Int} (hop : op.isStore) : Writes (.var op i) (i + 1) (some .uninit)
  | previous {op : Opcode} {i : Int} (hop : op.isStore) : Writes (.var op i) (i - 1) (some .uninit)
  | increment {i amount : Int} : Writes (.iinc i amount) i (some .int)

theorem ite_ne_of_ne {α : Type} {p : Prop} [Decidable p] {x y a : α} (hx : x ≠ a) (hy : y ≠ a) :
    (if p then x else y) ≠ a := by
  split
  · exact hx
  · exact hy

/-- Only stores have the effect of one. -/
theorem Opcode.isStore_of_effect? {op : Opcode} (h : op.effect? = some .store) : op.isStore := by
  rcases Bool.eq_false_or_eq_true op.isStore with hstore | hstore
  · exact hstore
  · have hrearrange : (StackOp.ofCode? op.code).map Effect.rearrange ≠ some .store := by simp
    unfold Opcode.effect? at h
    rw [hstore, if_neg Bool.false_ne_true] at h
    -- No other branch has this effect.
    refine absurd h ?_
    repeat' apply ite_ne_of_ne
    all_goals first
      | exact hrearrange
      | exact fun h => nomatch h

namespace Exec

variable {α β : Type} {insn : Insn}

/-! ## Composed runs -/

/-- **Runs that are composed of the operations on frames.** They read and write local variables as the
instruction may, and what else they fail with are causes that are seen in one frame. -/
inductive Composed (insn : Insn) : {α : Type} → Exec α → Prop where
  | pure {α : Type} (a : α) : Composed insn (Pure.pure a : Exec α)
  | fail {α : Type} {cause : Cause} (h : cause.Operand) : Composed insn (Exec.fail cause : Exec α)
  | fault {α : Type} (f : Fault) : Composed insn (Exec.fault f : Exec α)
  | bind {α β : Type} {x : Exec α} {k : α → Exec β} (hx : Composed insn x)
      (hk : ∀ a, Composed insn (k a)) : Composed insn (x >>= k)
  | pop : Composed insn pop
  | top : Composed insn top
  | push (v : Slot) : Composed insn (push insn v)
  | getLocal {i : Int} (h : insn.Reads i) : Composed insn (getLocal i)
  | setLocal {i : Int} {v : Slot} (h : insn.Writes i v) : Composed insn (setLocal i v)
  | result {α : Type} {k : Slot → Exec α} (hk : ∀ v, Composed insn (k v)) :
      Composed insn (get >>= fun f => k f.result)

namespace Composed

theorem ite {p : Prop} [Decidable p] {x y : Exec α} (hx : Composed insn x) (hy : Composed insn y) :
    Composed insn (if p then x else y) := by
  split
  · exact hx
  · exact hy

theorem ofExcept {x : Except (Halt Cause) Slot} (h : Transfer.Blames x) :
    Composed insn (Exec.ofExcept x) := by
  rcases x with (c | f) | v
  · exact .fail h
  · exact .fault f
  · exact .pure v

theorem ofProjection (x : Except TypeFault α) : Composed insn (Exec.ofProjection x) := by
  cases x with
  | error f => exact .fault _
  | ok a => exact .pure a

end Composed

/-! ## The stack -/

theorem composed_popMany (n : Nat) : Composed insn (popMany n) := by
  induction n with
  | zero => exact .pure ()
  | succ n ih => exact .bind .pop fun _ => ih

theorem composed_size (v : Slot) : Composed insn (size v) := by
  cases v with
  | none => exact .fault _
  | some x => exact .pure _

theorem composed_sized (n : Nat) (v : Slot) : Composed insn (sized insn n v) :=
  .bind (composed_size v) fun _ => .ite (.pure v) (.fail trivial)

theorem composed_popSized (n : Nat) : Composed insn (popSized insn n) :=
  .bind .pop (composed_sized n)

theorem composed_topSized (n : Nat) : Composed insn (topSized insn n) := by
  rw [topSized_eq]
  exact .bind .top (composed_sized n)

theorem composed_pushAll (vs : List Slot) : Composed insn (pushAll insn vs) := by
  induction vs with
  | nil => exact .pure ()
  | cons v vs ih => exact .bind (.push v) fun _ => ih

/-- By induction on the plan of the instruction. -/
theorem composed_plan (plan : StackOp.Plan) (taken : List Slot) : Composed insn (plan.exec insn taken) := by
  induction plan generalizing taken with
  | give picks => exact composed_pushAll _
  | take n next ih => exact .bind (composed_popSized n) fun _ => ih _
  | test wide narrow ihw ihn =>
    exact .bind .pop fun v => .bind (composed_size v) fun _ => .ite (ihw _) (ihn _)

theorem composed_stackOp (op : StackOp) : Composed insn (stackOp insn op) := by
  by_cases hop : op = .dup
  · subst hop
    exact .bind (composed_topSized 1) fun v => .push v
  · rw [stackOp_eq_plan hop]
    exact composed_plan _ _

/-! ## Local variables -/

theorem composed_forget {op : Opcode} (hop : op.isStore) (i : Int) :
    Composed (.var op i) (forget i) := by
  unfold forget
  split
  · rename_i hi
    exact .bind (.getLocal (.previous hop hi)) fun previous => .bind (composed_size previous) fun _ =>
      .ite (.setLocal (.previous hop)) (.pure ())
  · exact .pure ()

/-- A store writes its own variable and those beside it. -/
theorem composed_store {op : Opcode} (hop : op.isStore) (i : Int) :
    Composed (.var op i) (store i) := by
  rw [store_eq]
  refine .bind .pop fun v => .bind (.setLocal (.store hop v)) fun _ => .bind (composed_size v) fun _ => ?_
  exact .ite (.bind (.setLocal (.next hop)) fun _ => composed_forget hop i) (composed_forget hop i)

/-! ## Instructions -/

theorem composed_unary : Composed insn (unary insn) :=
  .bind .pop fun _ => .ofExcept Transfer.blames_unary

theorem composed_binary : Composed insn (binary insn) :=
  .bind .pop fun _ => .bind .pop fun lower => .ofExcept (Transfer.blames_binary lower)

/-- A load reads its own variable. -/
theorem composed_load (op : Opcode) (i : Int) :
    Composed (.var op i) (getLocal i >>= fun v => push (.var op i) v) :=
  .bind (.getLocal .own) fun v => .push v

theorem composed_invoke : Composed insn (invoke insn) := by
  have hdesc : Composed insn (invokedDescriptor insn) := by
    cases insn with
    | method op owner name desc itf => exact .pure desc
    | dynamic name desc bootstrap args => exact .pure desc
    | _ => exact .fault _
  refine .bind hdesc fun desc => ?_
  split
  · exact .fail trivial
  · refine .bind (.ofProjection _) fun arguments => .bind (composed_popMany _) fun _ => ?_
    refine .bind (.ofExcept Transfer.blames_variadic) fun v => ?_
    exact .bind (.ofProjection _) fun result => .ite (.push v) (.pure ())

/-- **Every effect** is composed of the operations. -/
theorem composed_perform {effect : Effect} (heffect : insn.opcode.effect? = some effect) :
    Composed insn (perform insn effect) := by
  cases effect with
  | idle => exact .pure ()
  | produce => exact .bind (.ofExcept Transfer.blames_nullary) fun v => .push v
  | load =>
    cases insn with
    | var op i => exact composed_load op i
    | _ => exact .fault _
  | store =>
    cases insn with
    | var op i => exact composed_store (Opcode.isStore_of_effect? heffect) i
    | _ => exact .fault _
  | combine => exact .bind composed_binary fun v => .push v
  | storeElement => exact composed_popMany 3
  | rearrange op => exact composed_stackOp op
  | convert => exact .bind composed_unary fun v => .push v
  | increment =>
    cases insn with
    | iinc i amount => exact .bind (.getLocal .increment) fun _ => .setLocal .increment
    | _ => exact .fault _
  | consume | returnValue => exact .bind composed_unary fun _ => .pure ()
  | consumeTwo => exact .bind composed_binary fun _ => .pure ()
  | returnVoid =>
    refine .result (k := fun v => if v.isSome then fail .incompatibleReturn else pure ()) fun v => ?_
    exact .ite (.fail trivial) (.pure ())
  | invoke => exact composed_invoke
  | multiArray =>
    cases insn with
    | multiArray desc dimensions =>
      have hpush : Composed (.multiArray desc dimensions) (do
          popMany dimensions.toNat
          let v ← ofExcept (Transfer.variadic (.multiArray desc dimensions))
          push (.multiArray desc dimensions) v) :=
        .bind (composed_popMany _) fun _ => .bind (.ofExcept Transfer.blames_variadic) fun v => .push v
      exact .ite (.bind (.fault _) fun _ => hpush) hpush
    | _ => exact .fault _

/-- **The run of an instruction** is composed of the operations. -/
theorem composed_execute (insn : Insn) : Composed insn (execute insn) := by
  unfold execute
  split
  · rename_i heffect
    exact composed_perform heffect
  · exact .fault _

/-! ## The frame behind a run -/

/-- **The frame behind a run**, whether the run succeeds or halts. -/
def after (x : Exec α) (f : Frame) : Frame :=
  match x.run f with
  | .ok _ f' => f'
  | .error _ f' => f'

theorem after_of_ok {x : Exec α} {f f' : Frame} {a : α} (h : x.run f = .ok a f') : x.after f = f' := by
  unfold after
  rw [h]

theorem after_of_error {x : Exec α} {f f' : Frame} {halt : Halt Cause} (h : x.run f = .error halt f') :
    x.after f = f' := by
  unfold after
  rw [h]

/-- **What the operations keep, composed runs keep.** A relation between the frames before and behind a run
only has to allow for other stacks and for what the instruction may write. -/
theorem Composed.rel_after {R : Frame → Frame → Prop} (hrefl : ∀ f, R f f)
    (htrans : ∀ {f g h}, R f g → R g h → R f h) (hstack : ∀ f stack, R f { f with stack })
    (hlocals : ∀ f i v, insn.Writes i v → f.hasLocal i →
      R f { f with locals := f.locals.setIfInBounds i.toNat v })
    {x : Exec α} (h : Composed insn x) : ∀ f, R f (x.after f) := by
  induction h with
  | pure | fail | fault => exact hrefl
  | @bind _ _ x k _ _ ihx ihk =>
    intro f
    cases hx : x.run f with
    | ok a g =>
      have hfg := ihx f
      rw [after_of_ok hx] at hfg
      rw [after, run_bind_of_ok hx]
      exact htrans hfg (ihk a g)
    | error halt g =>
      rw [after_of_error (run_bind_of_error hx), ← after_of_error hx]
      exact ihx f
  | pop =>
    intro f
    rw [after, run_pop]
    cases f.stack with
    | nil => exact hrefl f
    | cons v rest => exact hstack f rest
  | top =>
    intro f
    rw [after, run_top]
    cases f.stack with
    | nil => exact hrefl f
    | cons v rest => exact hrefl f
  | push v =>
    intro f
    rw [after, run_push]
    by_cases hv : v.isNone
    · rw [if_pos hv]
      exact hrefl f
    rw [if_neg hv]
    by_cases hfull : 0 < f.maxStack ∧ f.maxStack ≤ f.stack.length
    · rw [if_pos hfull]
      exact hrefl f
    · rw [if_neg hfull]
      exact hstack f _
  | @getLocal i _ =>
    intro f
    rw [after, run_getLocal]
    by_cases hi : f.hasLocal i
    · rw [if_pos hi]
      exact hrefl f
    · rw [if_neg hi]
      exact hrefl f
  | @setLocal i v hwrites =>
    intro f
    rw [after, run_setLocal]
    by_cases hi : f.hasLocal i
    · rw [if_pos hi]
      exact hlocals f i v hwrites hi
    · rw [if_neg hi]
      exact hrefl f
  | result _ ih => exact fun f => ih f.result f

/-! ## Causes -/

/-- **Composed runs fail with causes that are seen in one frame.** -/
theorem Composed.local_of_run {x : Exec α} (h : Composed insn x) :
    ∀ {f c f'}, x.run f = .error (.failed c) f' → c.Local := by
  induction h with
  | pure | fault =>
    intro f c f' hrun
    exact nomatch hrun
  | fail hoperand =>
    intro f c f' hrun
    cases hrun
    exact hoperand.toLocal
  | @bind _ _ x k _ _ ihx ihk =>
    intro f c f' hrun
    cases hx : x.run f with
    | ok a g =>
      rw [run_bind_of_ok hx] at hrun
      exact ihk a hrun
    | error halt g =>
      rw [run_bind_of_error hx] at hrun
      cases hrun
      exact ihx hx
  | pop =>
    intro f c f' hrun
    rw [run_pop] at hrun
    split at hrun
    · cases hrun
      trivial
    · cases hrun
  | top =>
    intro f c f' hrun
    rw [run_top] at hrun
    split at hrun
    · cases hrun
      trivial
    · cases hrun
  | push v =>
    intro f c f' hrun
    rw [run_push] at hrun
    split at hrun
    · cases hrun
      trivial
    split at hrun
    · cases hrun
      trivial
    · cases hrun
  | getLocal _ =>
    intro f c f' hrun
    rw [run_getLocal] at hrun
    split at hrun
    · cases hrun
    · cases hrun
      trivial
  | setLocal _ =>
    intro f c f' hrun
    rw [run_setLocal] at hrun
    split at hrun
    · cases hrun
    · cases hrun
      trivial
  | result _ ih =>
    intro f c f' hrun
    exact ih f.result hrun

end Exec

/-- **An instruction fails with causes that are seen in one frame.** -/
theorem Frame.local_of_execute {f : Frame} {insn : Insn} {c : Cause}
    (h : f.execute insn = .error (.failed c)) : c.Local := by
  obtain ⟨f', hrun⟩ := Frame.execute_eq_error_iff_run.mp h
  exact (Exec.composed_execute insn).local_of_run hrun

end StackMap
