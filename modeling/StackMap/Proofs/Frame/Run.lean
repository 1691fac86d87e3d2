import StackMap.Frame.Execute

/-!
# `Proofs.Frame.Run`: when runs over a frame succeed

The operations that look at the frame or change it have an equation each, which says how they end. Each
operation of `Exec` then has a statement on success: it succeeds exactly under a condition on the frame, and
then gives a known result and leaves a known frame. What is built from these operations is opened by rewriting
with `run_bind_eq_ok_iff` and the statement for each part.

## Contents

* `Slot.width`: the size of the value in a slot.
* `Frame.HasRoom`: the bound on the stack.
* `Exec.top`, `Exec.sized`, `Exec.forget`: parts of operations.
* `Exec.run_pop`, `Exec.run_push`, `Exec.run_getLocal`, `Exec.run_setLocal`: how the operations end.
* `Exec.run_…_eq_ok_iff`: when they succeed.
* `Frame.execute_eq_ok_iff_run`, `Frame.execute_eq_error_iff_run`: how an instruction ends.
-/

namespace StackMap

/-- The size of the value in a slot, if there is one. -/
def Slot.width (v : Slot) : Option Nat := v.map Value.size

theorem Value.size_eq (x : Value) : x.size = 1 ∨ x.size = 2 := by
  cases x <;> simp [size]

/-- A value takes one local variable or two. -/
theorem Slot.width_eq {v : Slot} {n : Nat} (h : v.width = some n) : n = 1 ∨ n = 2 := by
  obtain ⟨x, _, rfl⟩ := Option.map_eq_some_iff.mp h
  exact x.size_eq

theorem Slot.isSome_of_width {v : Slot} {n : Nat} (h : v.width = some n) : v.isSome := by
  cases v with
  | none => exact absurd h (by simp [width])
  | some x => rfl

/-- **There is room for `n` further entries** on the stack. -/
def Frame.HasRoom (f : Frame) (n : Nat) : Prop :=
  f.maxStack = 0 ∨ f.stack.length + n ≤ f.maxStack

theorem Frame.hasLocal_iff {f : Frame} {i : Int} :
    f.hasLocal i ↔ ∃ k : Nat, i = k ∧ k < f.locals.size := by
  simp only [hasLocal, Bool.and_eq_true, decide_eq_true_eq]
  constructor
  · rintro ⟨hpos, hlt⟩
    obtain ⟨k, rfl⟩ := Int.eq_ofNat_of_zero_le hpos
    exact ⟨k, rfl, Int.ofNat_lt.mp hlt⟩
  · rintro ⟨k, rfl, hlt⟩
    exact ⟨Int.natCast_nonneg k, Int.ofNat_lt.mpr hlt⟩

namespace Exec

variable {α β : Type} {f f' : Frame}

/-! ## Parts

Some operations of `Exec` are made of smaller ones that have no name there. -/

/-- The top of the stack. -/
def top : Exec Slot := do
  match (← get).top with
  | .ok v => return v
  | .error cause => fail cause

/-- A slot that has to be of the given size. -/
def sized (insn : Insn) (n : Nat) (v : Slot) : Exec Slot := do
  if (← size v) = n then return v else fail (.wrongSize insn n)

/-- What a store does to the variable before. -/
def forget (i : Int) : Exec Unit := do
  if 0 < i then
    let previous ← getLocal (i - 1)
    if (← size previous) = 2 then setLocal (i - 1) (some .uninit)

theorem popSized_eq (insn : Insn) (n : Nat) : popSized insn n = pop >>= sized insn n := rfl

theorem topSized_eq (insn : Insn) (n : Nat) : topSized insn n = top >>= sized insn n := by
  funext ⟨locals, stack, maxStack, result⟩
  cases stack with
  | nil => rfl
  | cons v rest => rfl

theorem store_eq (i : Int) : store i = (do
    let v ← pop
    setLocal i v
    if (← size v) = 2 then setLocal (i + 1) (some .uninit) >>= fun _ => forget i else forget i) := rfl

/-! ## Control -/

/-- What comes behind a run that succeeds. -/
theorem run_bind_of_ok {x : Exec α} {k : α → Exec β} {a : α} (h : x.run f = .ok a f') :
    (x >>= k).run f = (k a).run f' := by
  have hx : x f = .ok a f' := h
  show EStateM.bind x k f = _
  unfold EStateM.bind
  rw [hx]
  rfl

/-- Nothing comes behind a run that halts. -/
theorem run_bind_of_error {x : Exec α} {k : α → Exec β} {halt : Halt Cause}
    (h : x.run f = .error halt f') : (x >>= k).run f = .error halt f' := by
  have hx : x f = .error halt f' := h
  show EStateM.bind x k f = _
  unfold EStateM.bind
  rw [hx]

theorem run_bind_eq_ok_iff {x : Exec α} {k : α → Exec β} {b : β} :
    (x >>= k).run f = .ok b f' ↔ ∃ a g, x.run f = .ok a g ∧ (k a).run g = .ok b f' := by
  cases hx : x.run f with
  | error halt g =>
    rw [run_bind_of_error hx]
    exact ⟨fun h => (nomatch h), fun ⟨_, _, h, _⟩ => nomatch h⟩
  | ok a g =>
    rw [run_bind_of_ok hx]
    constructor
    · exact fun h => ⟨a, g, rfl, h⟩
    · rintro ⟨a', g', ⟨⟩, h⟩
      exact h

theorem run_pure_eq_ok_iff {a b : α} : (pure a : Exec α).run f = .ok b f' ↔ b = a ∧ f' = f := by
  show EStateM.Result.ok a f = .ok b f' ↔ _
  simp only [EStateM.Result.ok.injEq]
  exact and_congr eq_comm eq_comm

theorem run_fail_eq_ok_iff {c : Cause} {b : α} : (fail c : Exec α).run f = .ok b f' ↔ False :=
  ⟨nofun, False.elim⟩

theorem run_fault_eq_ok_iff {c : Fault} {b : α} : (fault c : Exec α).run f = .ok b f' ↔ False :=
  ⟨nofun, False.elim⟩

theorem run_get_bind {k : Frame → Exec β} : (get >>= k).run f = (k f).run f := rfl

theorem run_ofExcept_eq_ok_iff {x : Except (Halt Cause) α} {b : α} :
    (ofExcept x).run f = .ok b f' ↔ x = .ok b ∧ f' = f := by
  cases x with
  | error h => exact ⟨nofun, fun h => nomatch h.1⟩
  | ok a =>
    rw [ofExcept, run_pure_eq_ok_iff, Except.ok.injEq]
    exact and_congr_left' eq_comm

theorem run_ofProjection_eq_ok_iff {x : Except TypeFault α} {b : α} :
    (ofProjection x).run f = .ok b f' ↔ x = .ok b ∧ f' = f := by
  cases x with
  | error h => exact ⟨nofun, fun h => nomatch h.1⟩
  | ok a =>
    rw [ofProjection, run_pure_eq_ok_iff, Except.ok.injEq]
    exact and_congr_left' eq_comm

/-! ## The stack -/

theorem run_pop : pop.run f =
    match f.stack with
    | [] => .error (.failed .stackUnderflow) f
    | v :: rest => .ok v { f with stack := rest } := by
  obtain ⟨locals, stack, maxStack, result⟩ := f
  cases stack with
  | nil => rfl
  | cons v rest => rfl

theorem run_pop_eq_ok_iff {v : Slot} :
    pop.run f = .ok v f' ↔ ∃ rest, f.stack = v :: rest ∧ f' = { f with stack := rest } := by
  rw [run_pop]
  cases f.stack with
  | nil => exact ⟨nofun, fun ⟨_, h, _⟩ => nomatch h⟩
  | cons w rest =>
    constructor
    · rintro ⟨⟩
      exact ⟨rest, rfl, rfl⟩
    · rintro ⟨_, ⟨⟩, rfl⟩
      rfl

theorem run_top : top.run f =
    match f.stack with
    | [] => .error (.failed .stackUnderflow) f
    | v :: _ => .ok v f := by
  obtain ⟨locals, stack, maxStack, result⟩ := f
  cases stack with
  | nil => rfl
  | cons v rest => rfl

theorem run_top_eq_ok_iff {v : Slot} :
    top.run f = .ok v f' ↔ ∃ rest, f.stack = v :: rest ∧ f' = f := by
  rw [run_top]
  cases f.stack with
  | nil => exact ⟨nofun, fun ⟨_, h, _⟩ => nomatch h⟩
  | cons w rest =>
    constructor
    · rintro ⟨⟩
      exact ⟨rest, rfl, rfl⟩
    · rintro ⟨_, ⟨⟩, rfl⟩
      rfl

theorem run_popMany_eq_ok_iff {n : Nat} {u : Unit} :
    (popMany n).run f = .ok u f' ↔
      ∃ taken rest, taken.length = n ∧ f.stack = taken ++ rest ∧ f' = { f with stack := rest } := by
  induction n generalizing f with
  | zero =>
    rw [popMany, run_pure_eq_ok_iff]
    constructor
    · rintro ⟨_, rfl⟩
      exact ⟨[], f'.stack, rfl, rfl, rfl⟩
    · rintro ⟨taken, rest, hlen, hs, rfl⟩
      rw [List.length_eq_zero_iff] at hlen
      subst hlen
      rw [List.nil_append] at hs
      rw [← hs]
      exact ⟨rfl, rfl⟩
  | succ n ih =>
    simp only [popMany, run_bind_eq_ok_iff, run_pop_eq_ok_iff, ih]
    constructor
    · rintro ⟨v, _, ⟨rest, hs, rfl⟩, taken, rest', hlen, hs', rfl⟩
      refine ⟨v :: taken, rest', by simp [hlen], ?_, rfl⟩
      rw [hs, List.cons_append, ← hs']
    · rintro ⟨taken, rest, hlen, hs, rfl⟩
      -- The entry that is popped first is the first of those taken.
      cases taken with
      | nil => simp at hlen
      | cons v taken =>
        exact ⟨v, _, ⟨taken ++ rest, hs, rfl⟩, taken, rest, by simpa using hlen, rfl, rfl⟩

theorem run_size_eq_ok_iff {v : Slot} {n : Nat} :
    (size v).run f = .ok n f' ↔ v.width = some n ∧ f' = f := by
  cases v with
  | none => exact ⟨nofun, fun h => nomatch h.1⟩
  | some x =>
    rw [size, run_pure_eq_ok_iff]
    show n = x.size ∧ f' = f ↔ some x.size = some n ∧ f' = f
    rw [Option.some.injEq]
    exact and_congr_left' eq_comm

theorem run_sized_eq_ok_iff {insn : Insn} {n : Nat} {v w : Slot} :
    (sized insn n v).run f = .ok w f' ↔ v.width = some n ∧ w = v ∧ f' = f := by
  simp only [sized, run_bind_eq_ok_iff, run_size_eq_ok_iff]
  constructor
  · rintro ⟨k, _, ⟨hk, rfl⟩, h⟩
    split at h
    · rename_i hkn
      obtain ⟨rfl, rfl⟩ := run_pure_eq_ok_iff.mp h
      exact ⟨hkn ▸ hk, rfl, rfl⟩
    · exact absurd h (by simp [run_fail_eq_ok_iff])
  · rintro ⟨hv, rfl, rfl⟩
    refine ⟨n, _, ⟨hv, rfl⟩, ?_⟩
    rw [if_pos rfl, run_pure_eq_ok_iff]
    exact ⟨rfl, rfl⟩

theorem run_popSized_eq_ok_iff {insn : Insn} {n : Nat} {v : Slot} :
    (popSized insn n).run f = .ok v f' ↔
      ∃ rest, f.stack = v :: rest ∧ v.width = some n ∧ f' = { f with stack := rest } := by
  simp only [popSized_eq, run_bind_eq_ok_iff, run_pop_eq_ok_iff, run_sized_eq_ok_iff]
  constructor
  · rintro ⟨_, _, ⟨rest, hs, rfl⟩, hv, rfl, rfl⟩
    exact ⟨rest, hs, hv, rfl⟩
  · rintro ⟨rest, hs, hv, rfl⟩
    exact ⟨v, _, ⟨rest, hs, rfl⟩, hv, rfl, rfl⟩

theorem run_topSized_eq_ok_iff {insn : Insn} {n : Nat} {v : Slot} :
    (topSized insn n).run f = .ok v f' ↔
      ∃ rest, f.stack = v :: rest ∧ v.width = some n ∧ f' = f := by
  simp only [topSized_eq, run_bind_eq_ok_iff, run_top_eq_ok_iff, run_sized_eq_ok_iff]
  constructor
  · rintro ⟨_, _, ⟨rest, hs, rfl⟩, hv, rfl, rfl⟩
    exact ⟨rest, hs, hv, rfl⟩
  · rintro ⟨rest, hs, hv, rfl⟩
    exact ⟨v, _, ⟨rest, hs, rfl⟩, hv, rfl, rfl⟩

theorem run_push {insn : Insn} (v : Slot) : (push insn v).run f =
    if v.isNone then .error (.failed (.noValue insn)) f
    else if 0 < f.maxStack ∧ f.maxStack ≤ f.stack.length then .error (.failed .stackOverflow) f
    else .ok () { f with stack := v :: f.stack } := by
  cases v with
  | none => rfl
  | some x =>
    have hvalue : ¬ (some x).isNone := Bool.false_ne_true
    rw [push, if_neg hvalue, if_neg hvalue, run_get_bind]
    by_cases hfull : 0 < f.maxStack ∧ f.maxStack ≤ f.stack.length
    · have hpush : f.push (some x) = .error .stackOverflow := if_pos hfull
      rw [if_pos hfull, hpush]
      rfl
    · have hpush : f.push (some x) = .ok { f with stack := some x :: f.stack } := if_neg hfull
      rw [if_neg hfull, hpush]
      rfl

theorem run_push_some {insn : Insn} (x : Value) : (push insn (some x)).run f =
    if 0 < f.maxStack ∧ f.maxStack ≤ f.stack.length then .error (.failed .stackOverflow) f
    else .ok () { f with stack := some x :: f.stack } :=
  (run_push (some x)).trans (if_neg Bool.false_ne_true)

theorem run_push_eq_ok_iff {insn : Insn} {v : Slot} {u : Unit} :
    (push insn v).run f = .ok u f' ↔
      v.isSome ∧ f.HasRoom 1 ∧ f' = { f with stack := v :: f.stack } := by
  cases v with
  | none => exact ⟨nofun, fun h => nomatch h.1⟩
  | some x =>
    rw [run_push_some, Frame.HasRoom]
    by_cases hfull : 0 < f.maxStack ∧ f.maxStack ≤ f.stack.length
    · rw [if_pos hfull]
      refine ⟨nofun, ?_⟩
      rintro ⟨-, hroom, -⟩
      omega
    · rw [if_neg hfull]
      constructor
      · rintro ⟨⟩
        exact ⟨rfl, by omega, rfl⟩
      · rintro ⟨-, -, rfl⟩
        rfl

/-- Pushing several slots asks for room once, for all of them. -/
theorem run_pushAll_eq_ok_iff {insn : Insn} {vs : List Slot} {u : Unit} :
    (pushAll insn vs).run f = .ok u f' ↔
      (∀ v ∈ vs, v.isSome) ∧ (vs = [] ∨ f.HasRoom vs.length) ∧
        f' = { f with stack := vs.reverse ++ f.stack } := by
  -- The first of the slots is pushed on `f`, the others on a stack that is one higher.
  induction vs generalizing f with
  | nil =>
    rw [pushAll, run_pure_eq_ok_iff]
    simp
  | cons v vs ih =>
    simp only [pushAll, run_bind_eq_ok_iff, run_push_eq_ok_iff, ih, Frame.HasRoom,
      List.forall_mem_cons, List.length_cons]
    constructor
    · rintro ⟨_, _, ⟨hv, hroom, rfl⟩, hvs, hroom', rfl⟩
      refine ⟨⟨hv, hvs⟩, Or.inr ?_, by simp⟩
      rcases hroom' with rfl | h
      · exact hroom
      · simp only [List.length_cons] at h
        omega
    · rintro ⟨⟨hv, hvs⟩, hroom, rfl⟩
      have hroom := hroom.resolve_left (by simp)
      refine ⟨(), _, ⟨hv, by omega, rfl⟩, hvs, Or.inr ?_, by simp⟩
      simp only [List.length_cons]
      omega

/-! ## Local variables -/

theorem run_getLocal (i : Int) : (getLocal i).run f =
    if f.hasLocal i then .ok (f.locals[i.toNat]?.getD none) f
    else .error (.failed (.localOutOfRange i f.locals.size)) f := by
  rw [getLocal, run_get_bind]
  by_cases hi : f.hasLocal i
  · have hlocal : f.local? i = .ok (f.locals[i.toNat]?.getD none) := if_pos hi
    rw [if_pos hi, hlocal]
    rfl
  · have hlocal : f.local? i = .error (.localOutOfRange i f.locals.size) := if_neg hi
    rw [if_neg hi, hlocal]
    rfl

theorem run_getLocal_eq_ok_iff {i : Int} {v : Slot} :
    (getLocal i).run f = .ok v f' ↔ ∃ k : Nat, i = k ∧ f.locals[k]? = some v ∧ f' = f := by
  rw [run_getLocal]
  by_cases hi : f.hasLocal i
  · obtain ⟨k, rfl, hk⟩ := Frame.hasLocal_iff.mp hi
    rw [if_pos hi, Int.toNat_natCast, Array.getElem?_eq_getElem hk, Option.getD_some]
    constructor
    · rintro ⟨⟩
      exact ⟨k, rfl, Array.getElem?_eq_getElem hk, rfl⟩
    · rintro ⟨k', hkk, hv, rfl⟩
      obtain rfl : k = k' := by omega
      rw [Array.getElem?_eq_getElem hk] at hv
      cases hv
      rfl
  · rw [if_neg hi]
    refine ⟨nofun, ?_⟩
    rintro ⟨k, rfl, hv, -⟩
    obtain ⟨hk, -⟩ := Array.getElem?_eq_some_iff.mp hv
    exact absurd (Frame.hasLocal_iff.mpr ⟨k, rfl, hk⟩) hi

theorem run_setLocal (i : Int) (v : Slot) : (setLocal i v).run f =
    if f.hasLocal i then .ok () { f with locals := f.locals.setIfInBounds i.toNat v }
    else .error (.failed (.localOutOfRange i f.locals.size)) f := by
  rw [setLocal, run_get_bind]
  by_cases hi : f.hasLocal i
  · have hset : f.setLocal i v = .ok { f with locals := f.locals.setIfInBounds i.toNat v } := if_pos hi
    rw [if_pos hi, hset]
    rfl
  · have hset : f.setLocal i v = .error (.localOutOfRange i f.locals.size) := if_neg hi
    rw [if_neg hi, hset]
    rfl

theorem run_setLocal_eq_ok_iff {i : Int} {v : Slot} {u : Unit} :
    (setLocal i v).run f = .ok u f' ↔
      ∃ k : Nat, i = k ∧ k < f.locals.size ∧
        f' = { f with locals := f.locals.setIfInBounds k v } := by
  rw [run_setLocal]
  by_cases hi : f.hasLocal i
  · obtain ⟨k, rfl, hk⟩ := Frame.hasLocal_iff.mp hi
    rw [if_pos hi, Int.toNat_natCast]
    constructor
    · rintro ⟨⟩
      exact ⟨k, rfl, hk, rfl⟩
    · rintro ⟨k', hkk, -, rfl⟩
      obtain rfl : k = k' := by omega
      rfl
  · rw [if_neg hi]
    refine ⟨nofun, ?_⟩
    rintro ⟨k, rfl, hk, -⟩
    exact absurd (Frame.hasLocal_iff.mpr ⟨k, rfl, hk⟩) hi

theorem run_variableOf_eq_ok_iff {insn : Insn} {i : Int} :
    (variableOf insn).run f = .ok i f' ↔ (∃ op, insn = .var op i) ∧ f' = f := by
  cases insn with
  | var op j =>
    rw [variableOf, run_pure_eq_ok_iff]
    simp [eq_comm]
  | _ => exact ⟨nofun, fun ⟨⟨_, h⟩, _⟩ => nomatch h⟩

end Exec

/-! ## Instructions -/

namespace Frame

variable {f f' : Frame} {insn : Insn}

theorem execute_eq_ok_iff_run : f.execute insn = .ok f' ↔ (Exec.execute insn).run f = .ok () f' := by
  unfold execute
  cases (Exec.execute insn).run f with
  | ok u g => simp
  | error halt g => simp

theorem execute_eq_error_iff_run {halt : Halt Cause} :
    f.execute insn = .error halt ↔ ∃ f', (Exec.execute insn).run f = .error halt f' := by
  unfold execute
  cases (Exec.execute insn).run f with
  | ok u g => simp
  | error halt' g => simp

end Frame

end StackMap
