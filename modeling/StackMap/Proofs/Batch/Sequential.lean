import StackMap.Proofs.Batch.Steps

/-!
# `Proofs.Batch.Sequential`: one job after the other

The sequential schedule names events without a look at the state, and those that are not possible change
nothing. The possible ones among them are an interleaving, and this interleaving comes to the end of the
batch: between two jobs nothing is under way, and the coordinator either has closed or comes to the next
job.

## Contents

* `exists_steps_run`: the possible ones among some events are an interleaving.
* `State.Between`, `between_sequential`: the states between two jobs.
* `exists_steps_analyze`: the sequential schedule is an interleaving to the end.
-/

namespace StackMap.Batch

variable {plan : Plan} {s s' : State} {e : Event} {events : List Event}

/-! ## Events that may not be possible -/

theorem run_nil : run plan s [] = s := rfl

theorem run_cons_of_some (h : step? plan s e = some s') :
    run plan s (e :: events) = run plan s' events := by
  simp only [run, List.foldl_cons, h, Option.getD_some]

theorem run_cons_of_none (h : step? plan s e = none) :
    run plan s (e :: events) = run plan s events := by
  simp only [run, List.foldl_cons, h, Option.getD_none]

theorem run_append (events events' : List Event) :
    run plan s (events ++ events') = run plan (run plan s events) events' :=
  List.foldl_append

/-- An event that is possible, in front of an interleaving. -/
theorem Steps.cons {s'' : State} (h : step? plan s e = some s') (hs : Steps plan s' events s'') :
    Steps plan s (e :: events) s'' := by
  induction hs with
  | refl => exact .tail .refl h
  | tail _ hstep ih => exact .tail ih hstep

/-- Only a batch that has been canceled cannot be canceled. -/
theorem canceled_of_step?_eq_none (h : step? plan s .cancel = none) : s.canceled = true := by
  simpa [step?] using h

/-- **The possible ones among some events are an interleaving**, with a cancellation just if there is one
among them all. -/
theorem exists_steps_run (events : List Event) (s : State) :
    ∃ events', Steps plan s events' (run plan s events) ∧
      (s.canceled = true ∨ .cancel ∈ events' ↔ s.canceled = true ∨ .cancel ∈ events) := by
  induction events generalizing s with
  | nil => exact ⟨[], .refl, Iff.rfl⟩
  | cons e events ih =>
    cases h : step? plan s e with
    | some s' =>
      obtain ⟨events', hsteps, hcancel⟩ := ih s'
      have hcanceled := (step?_eq_some_iff.mp h).canceled_iff
      refine ⟨e :: events', ?_, ?_⟩
      · rw [run_cons_of_some h]
        exact hsteps.cons h
      · rw [List.mem_cons, List.mem_cons, ← or_assoc, ← or_assoc, @eq_comm _ Event.cancel e, ← hcanceled]
        exact hcancel
    | none =>
      obtain ⟨events', hsteps, hcancel⟩ := ih s
      refine ⟨events', ?_, ?_⟩
      · rw [run_cons_of_none h]
        exact hsteps
      · rw [hcancel, List.mem_cons]
        constructor
        · exact fun hc => hc.imp_right Or.inr
        · rintro (hc | rfl | hc)
          · exact Or.inl hc
          · exact Or.inl (canceled_of_step?_eq_none h)
          · exact Or.inr hc

/-! ## Between two jobs -/

/-- **Nothing is under way**, and the coordinator has closed or comes to the job `i`. -/
structure State.Between (s : State) (i : Nat) : Prop where
  waiting : s.waiting = []
  busy : s.busy = []
  checked : s.checked = false
  turn : s.closed = true ∨ s.next = i

/-- A coordinator that has closed passes over a job. -/
theorem State.Between.closed {i : Nat} (h : s.Between i) (hclosed : s.closed = true) (i' : Nat) :
    s.Between i' :=
  { h with turn := Or.inl hclosed }

/-- What the end of an analysis leaves as it was. -/
theorem State.Between.finish {i j : Nat} (h : Step plan s (.finish i) s') (hwaiting : s.waiting = [])
    (hbusy : s.busy = [i]) (hchecked : s.checked = false) (hnext : s.next = j) : s'.Between j := by
  have hidle : s.busy.erase i = [] := by rw [hbusy, List.erase_cons_head]
  cases h with
  | keep _ _ _ _ => exact ⟨hwaiting, hidle, hchecked, Or.inr hnext⟩
  | fail _ _ _ _ => exact ⟨hwaiting, hidle, hchecked, Or.inr hnext⟩
  | fault _ _ _ => exact ⟨hwaiting, hidle, hchecked, Or.inr hnext⟩

/-- What can be seen makes no difference between two jobs. -/
theorem State.Between.signal {i : Nat} (h : s.Between i) : (run plan s [.signal]).Between i := by
  cases hstep : step? plan s .signal with
  | some s' =>
    rw [run_cons_of_some hstep, run_nil]
    cases step?_eq_some_iff.mp hstep
    exact { h with }
  | none =>
    rw [run_cons_of_none hstep, run_nil]
    exact h

/-- Before a job that is not launched its events change nothing. -/
theorem State.Between.skip {i : Nat} (h : s.Between i) (job : Nat) :
    run plan s [.launch, .start job, .finish job, .signal] = run plan s [.signal] := by
  rw [run_cons_of_none (by simp [step?, h.checked]), run_cons_of_none (by simp [step?, h.waiting]),
    run_cons_of_none (by simp [step?, h.busy])]

/-- **The events of a job lead from before it to behind it.** -/
theorem State.Between.job {i : Nat} (h : s.Between i) (hslots : 0 < plan.slots)
    (hi : i < plan.jobs.size) :
    (run plan s [.check, .launch, .start i, .finish i, .signal]).Between (i + 1) := by
  by_cases hclosed : s.closed = true
  · have hcheck : step? plan s .check = none := by simp [step?, hclosed]
    rw [run_cons_of_none hcheck, h.skip]
    exact (h.closed hclosed _).signal
  have hclosed : s.closed = false := Bool.eq_false_iff.mpr hclosed
  have hnext : s.next = i := h.turn.resolve_left (by simp [hclosed])
  have hi' : s.next < plan.jobs.size := hnext ▸ hi
  cases hsignaled : s.signaled with
  | true =>
    rw [run_cons_of_some (step?_eq_some_iff.mpr (.close hclosed h.checked hi' hsignaled))]
    have hclose : { s with closed := true }.Between (i + 1) := { h with turn := Or.inl rfl }
    rw [hclose.skip]
    exact hclose.signal
  | false =>
    -- The coordinator looks, launches the job, and its worker begins: now it is the only one.
    let looked : State := { s with checked := true }
    let launched : State := { looked with checked := false, waiting := [i], next := i + 1 }
    let busy : State := { launched with waiting := [], busy := [i] }
    have hcheck : step? plan s .check = some looked :=
      step?_eq_some_iff.mpr (.check hclosed h.checked hi' hsignaled)
    have hlaunch : step? plan looked .launch = some launched := by
      simp [step?, looked, launched, h.waiting, h.busy, hnext, hslots]
    have hstart : step? plan launched (.start i) = some busy := by
      simp [step?, launched, busy, looked, hsignaled, h.busy]
    have hfinish : Step plan busy (.finish i) _ :=
      step_of_finish List.mem_cons_self (Array.getElem?_eq_getElem hi)
    rw [run_cons_of_some hcheck, run_cons_of_some hlaunch, run_cons_of_some hstart,
      run_cons_of_some (step?_eq_some_iff.mpr hfinish)]
    exact (State.Between.finish hfinish rfl rfl rfl rfl).signal

/-- **The schedule of some jobs leads from the first of them to behind the last.** -/
theorem between_sequential (h : s.Between 0) (hslots : 0 < plan.slots) {n : Nat}
    (hn : n ≤ plan.jobs.size) : (run plan s (sequential n)).Between n := by
  induction n with
  | zero => exact h
  | succ n ih =>
    have hprefix := ih (Nat.le_of_succ_le hn)
    rw [sequential, List.range_succ, List.flatMap_append, run_append]
    exact hprefix.job hslots hn

/-! ## The schedule of the library -/

theorem between_initial : State.initial.Between 0 := ⟨rfl, rfl, rfl, Or.inr rfl⟩

theorem between_canceled : (run plan .initial [.cancel, .signal]).Between 0 :=
  ⟨rfl, rfl, rfl, Or.inr rfl⟩

theorem cancel_not_mem_sequential (n : Nat) : .cancel ∉ sequential n := by
  simp [sequential]

/-- **The sequential schedule is an interleaving to the end of the batch.** -/
theorem exists_steps_analyze (plan : Plan) (hslots : 0 < plan.slots) (canceled : Bool) :
    ∃ events s, Steps plan .initial events s ∧ s.done plan = true ∧
      (.cancel ∈ events ↔ canceled = true) ∧ analyze plan canceled = s.result plan := by
  let before : List Event := if canceled then [.cancel, .signal] else []
  have hbefore : (run plan .initial before).Between 0 := by
    cases canceled with
    | true => exact between_canceled
    | false => exact between_initial
  have hcancel : .cancel ∈ before ++ sequential plan.jobs.size ↔ canceled = true := by
    rw [List.mem_append, or_iff_left (cancel_not_mem_sequential _)]
    cases canceled <;> simp [before]
  obtain ⟨events, hsteps, hevents⟩ := exists_steps_run (before ++ sequential plan.jobs.size) .initial
  refine ⟨events, _, hsteps, ?_, ?_, rfl⟩
  · rw [run_append]
    have hend := between_sequential hbefore hslots (Nat.le_refl plan.jobs.size)
    rcases hend.turn with hclosed | hnext
    · simp [State.done, hend.waiting, hend.busy, hclosed]
    · simp [State.done, hend.waiting, hend.busy, hnext]
  · have hinitial : State.initial.canceled = false := rfl
    rw [hinitial] at hevents
    simpa only [Bool.false_eq_true, false_or, hcancel] using hevents

end StackMap.Batch
