import StackMap.Proofs.Frame.Locals
import StackMap.Proofs.Outcome

/-!
# `Proofs.Frame.Depth`: instructions look at the top of the stack only

On a stack that is not bounded an instruction does the same whatever lies below the entries that it takes. So
further entries below the stack change nothing but their own presence, unless the instruction stops because
there are no entries left. The operations have this property one by one, and sequences of them have it because
no operation makes a bound.

## Contents

* `Frame.over`, `Exec.overResult`: frames and outcomes with further entries below the stack.
* `Exec.Composed.run_over`: composed runs do not look below the stack.
* `Frame.execute_over`: instructions look at the top of the stack only.
-/

namespace StackMap

/-- **The frame with further entries below its stack.** -/
def Frame.over (f : Frame) (below : List Slot) : Frame := { f with stack := f.stack ++ below }

namespace Exec

variable {α : Type} {insn : Insn} {f : Frame}

/-- The outcome of a run with further entries below the stack. -/
def overResult (below : List Slot) :
    EStateM.Result (Halt Cause) Frame α → EStateM.Result (Halt Cause) Frame α
  | .ok a f => .ok a (f.over below)
  | .error halt f => .error halt (f.over below)

/-- **Composed runs do not look below the stack**, unless they come to its end. -/
theorem Composed.run_over {x : Exec α} (h : Composed insn x) (below : List Slot) :
    ∀ {f : Frame}, f.maxStack = 0 → (∀ g, x.run f ≠ .error (.failed .stackUnderflow) g) →
      x.run (f.over below) = overResult below (x.run f) := by
  induction h with
  | pure | fail | fault => exact fun _ _ => rfl
  | @bind _ _ x k hx _ ihx ihk =>
    intro f hmax hno
    cases hrun : x.run f with
    | ok a g =>
      have hover := ihx hmax (by rw [hrun]; exact fun _ => nofun)
      rw [hrun] at hover
      -- The first part leaves a stack that is not bounded either.
      have hpeer := (hx.confined f).peer
      rw [after_of_ok hrun] at hpeer
      rw [run_bind_of_ok hrun] at hno ⊢
      rw [run_bind_of_ok hover]
      exact ihk a (hpeer.maxStack ▸ hmax) hno
    | error halt g =>
      rw [run_bind_of_error hrun] at hno ⊢
      have hover := ihx hmax (by rw [hrun]; rintro _ ⟨⟩; exact hno g rfl)
      rw [hrun] at hover
      exact run_bind_of_error hover
  | pop =>
    rintro ⟨locals, stack, maxStack, result⟩ _ hno
    cases stack with
    | nil => exact absurd rfl (hno _)
    | cons v rest => rfl
  | top =>
    rintro ⟨locals, stack, maxStack, result⟩ _ hno
    cases stack with
    | nil => exact absurd rfl (hno _)
    | cons v rest => rfl
  | push v =>
    intro f hmax _
    have hroom (g : Frame) (hg : g.maxStack = 0) : ¬ (0 < g.maxStack ∧ g.maxStack ≤ g.stack.length) := by
      omega
    rw [run_push, run_push, if_neg (hroom f hmax), if_neg (hroom (f.over below) hmax),
      apply_ite (overResult below)]
    rfl
  | getLocal _ =>
    intro f _ _
    rw [run_getLocal, run_getLocal, apply_ite (overResult below)]
    rfl
  | setLocal _ =>
    intro f _ _
    rw [run_setLocal, run_setLocal, apply_ite (overResult below)]
    rfl
  | result _ ih => exact fun {f} => ih f.result

end Exec

namespace Frame

variable {insn : Insn} {f : Frame}

/-- **Instructions look at the top of the stack only.** On a stack that is not bounded, an instruction that
succeeds also succeeds with further entries below, and leaves these where they are. One that fails or faults
does so with further entries too, unless it needs more entries than there are. -/
theorem execute_over (hmax : f.maxStack = 0) (insn : Insn) (below : List Slot) :
    (∀ f', f.execute insn = .ok f' → (f.over below).execute insn = .ok (f'.over below)) ∧
    (∀ halt, f.execute insn = .error halt → halt ≠ .failed .stackUnderflow →
      (f.over below).execute insn = .error halt) := by
  have hover := (Exec.composed_execute insn).run_over below hmax
  constructor
  · intro f' hok
    have hrun := execute_eq_ok_iff_run.mp hok
    rw [hrun] at hover
    exact execute_eq_ok_iff_run.mpr (hover fun _ h => nomatch h)
  · intro halt herror hhalt
    obtain ⟨g, hrun⟩ := execute_eq_error_iff_run.mp herror
    rw [hrun] at hover
    refine execute_eq_error_iff_run.mpr ⟨g.over below, hover ?_⟩
    rintro g' ⟨⟩
    exact hhalt rfl

/-- An invocation of a method with two parameters pops three entries, of four and of six. -/
theorem execute_over_invokevirtual :
    let f : Frame := ⟨#[], [some .int, some .long, some (.object "LA;"), some .float], 0, none⟩
    let insn : Insn := .method ⟨0xb6⟩ "A" "m" "(JI)D" false
    f.execute insn = .ok ⟨#[], [some .double, some .float], 0, none⟩ ∧
      (f.over [some .int, some .double]).execute insn =
        .ok ⟨#[], [some .double, some .float, some .int, some .double], 0, none⟩ := by
  intro f insn
  have hrun : f.execute insn = .ok ⟨#[], [some .double, some .float], 0, none⟩ :=
    eq_ok_of_toOption (by decide +kernel)
  exact ⟨hrun, (execute_over rfl insn _).1 _ hrun⟩

end Frame

end StackMap
