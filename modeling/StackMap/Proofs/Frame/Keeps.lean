import StackMap.Proofs.Frame.Order
import StackMap.Proofs.Frame.Rearrange

/-!
# `Proofs.Frame.Keeps`: runs that keep a property of slots

A run over a frame whose slots all have a property ends in such a frame, fails, or faults. This is shown
for each operation and kept by composition. The property has to hold of values only, and where nothing is
known.

## Contents

* `Exec.Keeps`: runs that keep a property of all slots, and the faults that they can end with.
* `Exec.keeps_store`, `Exec.keeps_stackOp`, …: the operations.
-/

namespace StackMap

namespace Exec

/-! ## Runs that keep a property of slots -/

variable {α β : Type} {S : Slot → Prop} {E : Fault → Prop} {Q : α → Prop} {R : β → Prop}
  {x : Exec α} {k : α → Exec β} {insn : Insn} {v : Slot}

/-- What an outcome satisfies: the result `Q`, the slots of the frame `S`, and a fault `E`. -/
def Satisfies (S : Slot → Prop) (E : Fault → Prop) (Q : α → Prop) :
    EStateM.Result (Halt Cause) Frame α → Prop
  | .ok a f => Q a ∧ f.Each S
  | .error (.failed _) _ => True
  | .error (.fault h) _ => E h

/-- **Runs that keep a property of slots**: they give results that satisfy `Q`, and fault only in ways that
satisfy `E`. -/
def Keeps (S : Slot → Prop) (E : Fault → Prop) (Q : α → Prop) (x : Exec α) : Prop :=
  ∀ f : Frame, f.Each S → Satisfies S E Q (x.run f)

namespace Keeps

theorem pure {a : α} (h : Q a) : Keeps S E Q (Pure.pure a) := fun _ hf => ⟨h, hf⟩

theorem fail (cause : Cause) : Keeps S E Q (Exec.fail cause) := fun _ _ => trivial

theorem fault {h : Fault} (hE : E h) : Keeps S E Q (Exec.fault h) := fun _ _ => hE

theorem bind (h : Keeps S E Q x) (hk : ∀ a, Q a → Keeps S E R (k a)) : Keeps S E R (x >>= k) := by
  intro f hf
  have hx := h f hf
  cases hrun : x.run f with
  | error halt f' =>
    rw [hrun] at hx
    rw [run_bind_of_error hrun]
    cases halt with
    | failed cause => trivial
    | fault h => exact hx
  | ok a f' =>
    rw [hrun] at hx
    rw [run_bind_of_ok hrun]
    exact hk a hx.1 f' hx.2

theorem ite {p : Prop} [Decidable p] {y : Exec α} (h : p → Keeps S E Q x) (h' : ¬ p → Keeps S E Q y) :
    Keeps S E Q (if p then x else y) := by
  split
  · exact h ‹_›
  · exact h' ‹_›

end Keeps

/-! ## The operations -/

theorem keeps_pop : Keeps S E S pop := by
  rintro ⟨locals, stack, maxStack, result⟩ hf
  cases stack with
  | nil => trivial
  | cons v rest =>
    exact ⟨hf.stack v List.mem_cons_self, hf.locals, fun w hw => hf.stack w (List.mem_cons_of_mem v hw)⟩

theorem keeps_top : Keeps S E S top := by
  rintro ⟨locals, stack, maxStack, result⟩ hf
  cases stack with
  | nil => trivial
  | cons v rest => exact ⟨hf.stack v List.mem_cons_self, hf⟩

theorem keeps_popMany (n : Nat) : Keeps S E (fun _ => True) (popMany n) := by
  induction n with
  | zero => exact .pure trivial
  | succ n ih => exact keeps_pop.bind fun _ _ => ih

theorem keeps_push (hv : v.isSome → S v) : Keeps S E (fun _ => True) (push insn v) := by
  intro f hf
  cases v with
  | none => trivial
  | some x =>
    rw [run_push_some]
    split
    · trivial
    · exact ⟨trivial, hf.locals, List.forall_mem_cons.mpr ⟨hv rfl, hf.stack⟩⟩

theorem keeps_pushAll {vs : List Slot} (hvs : ∀ v ∈ vs, v.isSome → S v) :
    Keeps S E (fun _ => True) (pushAll insn vs) := by
  induction vs with
  | nil => exact .pure trivial
  | cons v vs ih =>
    rw [List.forall_mem_cons] at hvs
    exact (keeps_push hvs.1).bind fun _ _ => ih hvs.2

theorem keeps_setLocal (i : Int) (hv : S v) : Keeps S E (fun _ => True) (setLocal i v) := by
  intro f hf
  rw [run_setLocal]
  split
  · refine ⟨trivial, fun w hw => ?_, hf.stack⟩
    rcases Array.mem_or_eq_of_mem_setIfInBounds hw with hw | rfl
    · exact hf.locals w hw
    · exact hv
  · trivial

theorem keeps_getLocal (i : Int) : Keeps S E S (getLocal i) := by
  intro f hf
  rw [run_getLocal]
  split
  · rename_i hi
    obtain ⟨k, rfl, hk⟩ := Frame.hasLocal_iff.mp hi
    rw [Int.toNat_natCast, Array.getElem?_eq_getElem hk]
    exact ⟨hf.locals _ (Array.getElem_mem hk), hf⟩
  · trivial

section

variable (hS : ∀ v, S v → v.isSome)

include hS

theorem keeps_size (hv : S v) : Keeps S E (fun _ => True) (size v) := by
  obtain ⟨x, rfl⟩ := Option.isSome_iff_exists.mp (hS v hv)
  exact .pure trivial

theorem keeps_sized (n : Nat) (hv : S v) : Keeps S E S (sized insn n v) :=
  (keeps_size hS hv).bind fun _ _ => .ite (fun _ => .pure hv) fun _ => .fail _

theorem keeps_popSized (n : Nat) : Keeps S E S (popSized insn n) :=
  keeps_pop.bind fun _ => keeps_sized hS n

theorem keeps_topSized (n : Nat) : Keeps S E S (topSized insn n) := by
  rw [topSized_eq]
  exact keeps_top.bind fun _ => keeps_sized hS n

theorem keeps_forget (huninit : S (some .uninit)) (i : Int) :
    Keeps S E (fun _ => True) (forget i) := by
  refine .ite (fun _ => ?_) fun _ => .pure trivial
  refine (keeps_getLocal (i - 1)).bind fun previous hprevious => (keeps_size hS hprevious).bind fun _ _ => ?_
  exact .ite (fun _ => keeps_setLocal _ huninit) fun _ => .pure trivial

/-- **A store keeps the property**, if it holds where nothing is known. -/
theorem keeps_store (huninit : S (some .uninit)) (i : Int) :
    Keeps S E (fun _ => True) (store i) := by
  rw [store_eq]
  refine keeps_pop.bind fun v hv => (keeps_setLocal i hv).bind fun _ _ => ?_
  refine (keeps_size hS hv).bind fun n _ => .ite (fun _ => ?_) fun _ => keeps_forget hS huninit i
  exact (keeps_setLocal _ huninit).bind fun _ _ => keeps_forget hS huninit i

/-- A plan puts back only what it has taken. -/
theorem keeps_plan {plan : StackOp.Plan} {taken : List Slot} (htaken : ∀ v ∈ taken, S v) :
    Keeps S E (fun _ => True) (plan.exec insn taken) := by
  induction plan generalizing taken with
  | give picks =>
    refine keeps_pushAll fun v hv hsome => ?_
    obtain ⟨i, -, rfl⟩ := List.mem_map.mp (List.mem_reverse.mp hv)
    obtain ⟨x, hx⟩ := Option.isSome_iff_exists.mp hsome
    rw [hx]
    exact htaken _ (List.mem_of_getElem? (Option.join_eq_some_iff.mp hx))
  | take n next ih =>
    refine (keeps_popSized hS n).bind fun v hv => ih ?_
    exact List.forall_mem_append.mpr ⟨htaken, List.forall_mem_singleton.mpr hv⟩
  | test wide narrow ihw ihn =>
    refine keeps_pop.bind fun v hv => (keeps_size hS hv).bind fun n _ => ?_
    have htaken' : ∀ w ∈ taken ++ [v], S w :=
      List.forall_mem_append.mpr ⟨htaken, List.forall_mem_singleton.mpr hv⟩
    exact .ite (fun _ => ihw htaken') fun _ => ihn htaken'

/-- **Rearranging the stack keeps the property.** -/
theorem keeps_stackOp (op : StackOp) : Keeps S E (fun _ => True) (stackOp insn op) := by
  by_cases hop : op = .dup
  · subst hop
    exact (keeps_topSized hS 1).bind fun v hv => keeps_push fun _ => hv
  · rw [stackOp_eq_plan hop]
    exact keeps_plan hS (fun _ hv => nomatch hv)

end

end Exec

end StackMap
