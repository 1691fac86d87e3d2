import StackMap.Proofs.Frame.Effect

/-!
# `Proofs.Frame.Rearrange`: stack instructions and their forms

A stack instruction finds out which of its forms applies while it takes its operands: the size of an
entry decides whether a further one is taken. `StackOp.Plan` is that decision as a tree, and one induction
over plans shows for all instructions that a run succeeds exactly if one of the forms fits.
-/

namespace StackMap

/-! ## Plans -/

/-- **How a stack instruction finds its form**: it takes entries of a known size, or takes an entry and goes
on by its size, and in the end puts entries back. -/
inductive StackOp.Plan where
  | give (picks : List Nat)
  | take (width : Nat) (next : Plan)
  | test (wide narrow : Plan)

namespace StackOp.Plan

/-- The plan as a run, with the entries that it has taken so far. -/
def exec (insn : Insn) : Plan → List Slot → Exec Unit
  | give picks, taken => Exec.pushAll insn (Form.given ⟨[], picks⟩ taken).reverse
  | take n next, taken => do
    let v ← Exec.popSized insn n
    next.exec insn (taken ++ [v])
  | test wide narrow, taken => do
    let v ← Exec.pop
    if (← Exec.size v) = 2 then wide.exec insn (taken ++ [v])
    else narrow.exec insn (taken ++ [v])

/-- The forms that a plan can end in, with the sizes of the entries that it has taken so far. -/
def forms : Plan → List Nat → List Form
  | give picks, widths => [⟨widths, picks⟩]
  | take n next, widths => next.forms (widths ++ [n])
  | test wide narrow, widths => wide.forms (widths ++ [2]) ++ narrow.forms (widths ++ [1])

/-- A form starts with the sizes of what has been taken. -/
theorem widths_of_mem_forms {plan : Plan} {widths : List Nat} {form : Form}
    (h : form ∈ plan.forms widths) : ∃ more, form.widths = widths ++ more := by
  induction plan generalizing widths with
  | give picks =>
    rw [forms, List.mem_singleton] at h
    exact ⟨[], by rw [h, List.append_nil]⟩
  | take n next ih =>
    obtain ⟨more, hmore⟩ := ih h
    exact ⟨n :: more, by rw [hmore, List.append_assoc, List.singleton_append]⟩
  | test wide narrow ihw ihn =>
    rw [forms, List.mem_append] at h
    rcases h with h | h
    · obtain ⟨more, hmore⟩ := ihw h
      exact ⟨2 :: more, by rw [hmore, List.append_assoc, List.singleton_append]⟩
    · obtain ⟨more, hmore⟩ := ihn h
      exact ⟨1 :: more, by rw [hmore, List.append_assoc, List.singleton_append]⟩

/-- What a form takes next has the next of its sizes. -/
theorem exists_cons_of_takes {form : Form} {plan : Plan} {widths : List Nat} {n : Nat}
    {taken more : List Slot} (hform : form ∈ plan.forms (widths ++ [n]))
    (htaken : taken.map Slot.width = widths.map some) (htakes : form.Takes (taken ++ more)) :
    ∃ v more', more = v :: more' ∧ v.width = some n := by
  obtain ⟨tail, htail⟩ := widths_of_mem_forms hform
  unfold Form.Takes at htakes
  rw [htail, List.map_append, htaken, List.append_assoc, List.map_append] at htakes
  have hmore := List.append_cancel_left htakes
  cases more with
  | nil => simp at hmore
  | cons v more' =>
    rw [List.singleton_append, List.map_cons, List.map_cons] at hmore
    injection hmore with hv _
    exact ⟨v, more', rfl, hv⟩

variable {f f' : Frame} {u : Unit} {insn : Insn}

theorem map_width_snoc {widths : List Nat} {taken : List Slot} {v : Slot} {n : Nat}
    (htaken : taken.map Slot.width = widths.map some) (hv : v.width = some n) :
    (taken ++ [v]).map Slot.width = (widths ++ [n]).map some := by
  rw [List.map_append, List.map_append, htaken, List.map_singleton, List.map_singleton, hv]

/-- A form at the end of a plan takes nothing more. -/
theorem eq_nil_of_takes_give {form : Form} {picks widths : List Nat} {taken more : List Slot}
    (hform : form ∈ (give picks).forms widths) (htaken : taken.map Slot.width = widths.map some)
    (htakes : form.Takes (taken ++ more)) : form = ⟨widths, picks⟩ ∧ more = [] := by
  rw [forms, List.mem_singleton] at hform
  subst hform
  have hlen := congrArg List.length htakes
  have hlen' := congrArg List.length htaken
  simp only [List.length_map, List.length_append] at hlen hlen'
  exact ⟨rfl, List.eq_nil_of_length_eq_zero (by omega)⟩

/-- **Where a form fits, a plan comes down to putting back** what the form gives. -/
theorem run_exec_of_takes {plan : Plan} {form : Form} {widths : List Nat}
    {taken more rest : List Slot} (hform : form ∈ plan.forms widths)
    (htaken : taken.map Slot.width = widths.map some) (htakes : form.Takes (taken ++ more)) :
    (plan.exec insn taken).run { f with stack := more ++ rest } =
      (Exec.pushAll insn (form.given (taken ++ more)).reverse).run { f with stack := rest } := by
  -- Along the plan `taken` grows by one entry at a time, and `widths` by its size.
  induction plan generalizing widths taken more with
  | give picks =>
    obtain ⟨rfl, rfl⟩ := eq_nil_of_takes_give hform htaken htakes
    rw [List.append_nil]
    rfl
  | take n next ih =>
    obtain ⟨v, more, rfl, hv⟩ := exists_cons_of_takes hform htaken htakes
    rw [List.append_cons] at htakes ⊢
    rw [exec, Exec.run_bind_of_ok (Exec.run_popSized_eq_ok_iff.mpr ⟨_, rfl, hv, rfl⟩)]
    exact ih hform (map_width_snoc htaken hv) htakes
  | test wide narrow ihw ihn =>
    rw [forms, List.mem_append] at hform
    rcases hform with hform | hform
    · obtain ⟨v, more, rfl, hv⟩ := exists_cons_of_takes hform htaken htakes
      rw [List.append_cons] at htakes ⊢
      rw [exec, Exec.run_bind_of_ok (Exec.run_pop_eq_ok_iff.mpr ⟨_, rfl, rfl⟩),
        Exec.run_bind_of_ok (Exec.run_size_eq_ok_iff.mpr ⟨hv, rfl⟩), if_pos rfl]
      exact ihw hform (map_width_snoc htaken hv) htakes
    · obtain ⟨v, more, rfl, hv⟩ := exists_cons_of_takes hform htaken htakes
      rw [List.append_cons] at htakes ⊢
      rw [exec, Exec.run_bind_of_ok (Exec.run_pop_eq_ok_iff.mpr ⟨_, rfl, rfl⟩),
        Exec.run_bind_of_ok (Exec.run_size_eq_ok_iff.mpr ⟨hv, rfl⟩), if_neg (by decide)]
      exact ihn hform (map_width_snoc htaken hv) htakes

/-- A plan that succeeds ends in one of its forms. -/
theorem exists_form_of_run {plan : Plan} {widths : List Nat} {taken rest : List Slot}
    (htaken : taken.map Slot.width = widths.map some) (hs : f.stack = taken ++ rest)
    (h : (plan.exec insn taken).run { f with stack := rest } = .ok u f') :
    ∃ form ∈ plan.forms widths, ∃ more, form.Takes (taken ++ more) ∧
      f.Replaces (taken ++ more) (form.given (taken ++ more)) f.locals f' := by
  induction plan generalizing widths taken rest with
  | give picks =>
    rw [exec, Exec.run_pushAll_after hs, List.reverse_reverse] at h
    refine ⟨_, List.mem_singleton.mpr rfl, [], ?_, ?_⟩
    · rw [List.append_nil]
      exact htaken
    · rw [List.append_nil]
      exact h
  | take n next ih =>
    simp only [exec, Exec.run_bind_eq_ok_iff, Exec.run_popSized_eq_ok_iff] at h
    obtain ⟨v, _, ⟨rest', rfl, hv, rfl⟩, h⟩ := h
    obtain ⟨form, hform, more, htakes, hr⟩ := ih (map_width_snoc htaken hv) (by simpa using hs) h
    rw [List.append_assoc] at htakes hr
    exact ⟨form, hform, _, htakes, hr⟩
  | test wide narrow ihw ihn =>
    simp only [exec, Exec.run_bind_eq_ok_iff, Exec.run_pop_eq_ok_iff, Exec.run_size_eq_ok_iff] at h
    simp only [forms, List.mem_append]
    obtain ⟨v, _, ⟨rest', rfl, rfl⟩, n, _, ⟨hv, rfl⟩, h⟩ := h
    split at h
    · rename_i hn
      subst hn
      obtain ⟨form, hform, more, htakes, hr⟩ := ihw (map_width_snoc htaken hv) (by simpa using hs) h
      rw [List.append_assoc] at htakes hr
      exact ⟨form, Or.inl hform, _, htakes, hr⟩
    · rename_i hn
      obtain rfl : n = 1 := (Slot.width_eq hv).resolve_right hn
      obtain ⟨form, hform, more, htakes, hr⟩ := ihn (map_width_snoc htaken hv) (by simpa using hs) h
      rw [List.append_assoc] at htakes hr
      exact ⟨form, Or.inr hform, _, htakes, hr⟩

/-- **A plan succeeds exactly if one of its forms fits.** -/
theorem run_exec_eq_ok_iff {plan : Plan} {widths : List Nat} {taken rest : List Slot}
    (htaken : taken.map Slot.width = widths.map some) (hs : f.stack = taken ++ rest) :
    (plan.exec insn taken).run { f with stack := rest } = .ok u f' ↔
      ∃ form ∈ plan.forms widths, ∃ more, form.Takes (taken ++ more) ∧
        f.Replaces (taken ++ more) (form.given (taken ++ more)) f.locals f' := by
  constructor
  · exact exists_form_of_run htaken hs
  · rintro ⟨form, hform, more, htakes, hr⟩
    obtain ⟨rest', hs', -⟩ := id hr
    obtain rfl : rest = more ++ rest' := by
      rw [hs, List.append_assoc] at hs'
      exact List.append_cancel_left hs'
    rw [run_exec_of_takes hform htaken htakes, Exec.run_pushAll_after hs', List.reverse_reverse]
    exact hr

end StackOp.Plan

/-- The plan of a stack instruction. -/
def StackOp.plan : StackOp → StackOp.Plan
  | .pop => .take 1 (.give [])
  | .pop2 => .test (.give []) (.take 1 (.give []))
  | .dup => .take 1 (.give [0, 0])
  | .dupX1 => .take 1 (.take 1 (.give [0, 1, 0]))
  | .dupX2 => .take 1 (.test (.give [0, 1, 0]) (.take 1 (.give [0, 1, 2, 0])))
  | .dup2 => .test (.give [0, 0]) (.take 1 (.give [0, 1, 0, 1]))
  | .dup2X1 => .test (.take 1 (.give [0, 1, 0])) (.take 1 (.take 1 (.give [0, 1, 2, 0, 1])))
  | .dup2X2 =>
    .test (.test (.give [0, 1, 0]) (.take 1 (.give [0, 1, 2, 0])))
      (.take 1 (.test (.give [0, 1, 2, 0, 1]) (.take 1 (.give [0, 1, 2, 3, 0, 1]))))
  | .swap => .take 1 (.take 1 (.give [1, 0]))

theorem StackOp.forms_plan (op : StackOp) : op.plan.forms [] = op.forms := by
  cases op <;> rfl

/-! ## Instructions -/

namespace Exec

variable {f f' : Frame} {u : Unit} {insn : Insn}

/-- A value that is not of size one is of size two. -/
theorem size_bind_ite (v : Slot) (a b : Exec Unit) :
    (do if (← size v) = 1 then a else b) = (do if (← size v) = 2 then b else a : Exec Unit) := by
  cases v with
  | none => rfl
  | some x =>
    show (if x.size = 1 then a else b) = (if x.size = 2 then b else a)
    rcases x.size_eq with h | h <;> rw [h] <;> rfl

/-- All stack instructions but `dup` follow their plans. -/
theorem stackOp_eq_plan {op : StackOp} (hop : op ≠ .dup) : stackOp insn op = op.plan.exec insn [] := by
  cases op with
  | dup => exact absurd rfl hop
  | pop2 =>
    -- The instruction asks for size one, the plan for size two.
    show (pop >>= fun v => _) = (pop >>= fun v => _)
    congr 1
    funext v
    exact size_bind_ite v _ _
  | _ => rfl

/-- `dup` leaves its operand where it is, so it is not the plan itself, but succeeds like it. -/
theorem run_dup_eq_ok_iff :
    (stackOp insn .dup).run f = .ok u f' ↔ ((StackOp.plan .dup).exec insn []).run f = .ok u f' := by
  simp only [stackOp, StackOp.plan, StackOp.Plan.exec, run_bind_eq_ok_iff, run_topSized_eq_ok_iff,
    run_popSized_eq_ok_iff, run_push_eq_ok_iff, run_pushAll_eq_ok_iff]
  constructor
  · rintro ⟨v, _, ⟨rest, hs, hv, rfl⟩, hsome, hroom, rfl⟩
    refine ⟨v, _, ⟨rest, hs, hv, rfl⟩, by simpa [StackOp.Form.given] using hsome, Or.inr ?_,
      by simp [StackOp.Form.given, hs]⟩
    simp only [Frame.HasRoom, hs, List.length_cons, StackOp.Form.given, List.length_reverse,
      List.length_map, List.length_nil] at hroom ⊢
    omega
  · rintro ⟨v, _, ⟨rest, hs, hv, rfl⟩, hsome, hroom, rfl⟩
    refine ⟨v, _, ⟨rest, hs, hv, rfl⟩, by simpa [StackOp.Form.given] using hsome, ?_,
      by simp [StackOp.Form.given, hs]⟩
    -- The plan takes the operand and puts back two, which needs room for one more.
    simp only [Frame.HasRoom, hs, List.length_cons, StackOp.Form.given, List.length_reverse,
      List.length_map, List.length_nil] at hroom ⊢
    have hroom := hroom.resolve_left (by simp)
    omega

/-- **A stack instruction succeeds exactly if one of its forms fits.** -/
theorem run_stackOp_eq_ok_iff {op : StackOp} :
    (stackOp insn op).run f = .ok u f' ↔ ∃ form ∈ op.forms, ∃ taken, form.Takes taken ∧
      f.Replaces taken (form.given taken) f.locals f' := by
  have hplan : (stackOp insn op).run f = .ok u f' ↔ (op.plan.exec insn []).run f = .ok u f' := by
    by_cases hop : op = .dup
    · subst hop
      exact run_dup_eq_ok_iff
    · rw [stackOp_eq_plan hop]
  rw [hplan, ← StackOp.forms_plan]
  have hnil : ([] : List Slot).map Slot.width = ([] : List Nat).map some := rfl
  exact StackOp.Plan.run_exec_eq_ok_iff hnil rfl

end Exec

end StackMap
