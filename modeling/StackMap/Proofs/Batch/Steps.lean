import Mathlib.Data.List.Basic
import StackMap.Batch

/-!
# `Proofs.Batch.Steps`: the interleavings of a batch

An interleaving of a batch is a sequence of events each of which is possible when it happens. What an event
can do is said once, by `Step`. Each event uses up a part of what there is to do in a batch, so no
interleaving goes on without end; and as long as the batch is not done, one of its own events is possible,
without help from outside. So a batch gets done, whatever the order of the events.

## Contents

* `Job.Ends`, `Job.Faults`: what becomes of a job by itself.
* `Step`, `Steps`, `step?_eq_some_iff`: events and interleavings.
* `State.work`, `Step.work_lt`, `Steps.length_le`: an interleaving is not longer than the work at its start.
* `State.Coherent`, `Steps.coherent`: what holds at any time.
* `exists_step`: a batch that is not done goes on.
-/

namespace StackMap

/-! ## Jobs by themselves -/

/-- **How the analysis of a job ends**: with a table, or as a failure that names the job. -/
inductive Job.Ends (job : Job) : Batch.Ended → Prop where
  | table {t : FrameTable} : FrameTable.ofMethod job.owner job.method = .ok t → Ends job (.table t)
  | failure {e : AnalysisError} : FrameTable.ofMethod job.owner job.method = .error (.failed e) →
      Ends job (.failure ⟨job.owner, job.method, e⟩)

/-- The analysis of a job does not end, but faults. -/
def Job.Faults (job : Job) (f : Fault) : Prop :=
  FrameTable.ofMethod job.owner job.method = .error (.fault f)

theorem Job.faults_of_analyze {job : Job} {f : Fault}
    (h : analyze job.owner job.method = .error (.fault f)) : job.Faults f := by
  rw [Job.Faults, FrameTable.ofMethod, h]
  rfl

theorem Job.ends_or_faults (job : Job) : (∃ e, job.Ends e) ∨ ∃ f, job.Faults f := by
  cases h : FrameTable.ofMethod job.owner job.method with
  | ok t => exact Or.inl ⟨_, .table h⟩
  | error halt =>
    cases halt with
    | failed e => exact Or.inl ⟨_, .failure h⟩
    | fault f => exact Or.inr ⟨f, h⟩

/-- A job ends in one way only. -/
theorem Job.Ends.unique {job : Job} {e e' : Batch.Ended} (h : job.Ends e) (h' : job.Ends e') :
    e = e' := by
  cases h with
  | table ht =>
    cases h' with
    | table ht' =>
      cases ht.symm.trans ht'
      rfl
    | failure hf => exact nomatch ht.symm.trans hf
  | failure hf =>
    cases h' with
    | table ht => exact nomatch hf.symm.trans ht
    | failure hf' =>
      cases hf.symm.trans hf'
      rfl

theorem Job.Ends.not_faults {job : Job} {e : Batch.Ended} {f : Fault} (h : job.Ends e) :
    ¬ job.Faults f := by
  intro hf
  cases h with
  | table ht => exact nomatch ht.symm.trans hf
  | failure he => exact nomatch he.symm.trans hf

namespace Batch

variable {plan : Plan} {s s' s'' : State} {e : Event} {events events' : List Event}

/-! ## Events -/

/-- **What an event does.** The coordinator looks and goes on, or looks and closes. A job that is started
begins, or leaves because it can see a reason to stop. A job that is busy ends and is kept, or its failure
is the reason to stop, or its analysis faults. -/
inductive Step (plan : Plan) (s : State) : Event → State → Prop where
  | check : s.closed = false → s.checked = false → s.next < plan.jobs.size → s.signaled = false →
      Step plan s .check { s with checked := true }
  | close : s.closed = false → s.checked = false → s.next < plan.jobs.size → s.signaled = true →
      Step plan s .check { s with closed := true }
  | launch : s.checked = true → s.waiting.length + s.busy.length < plan.slots →
      Step plan s .launch
        { s with checked := false, waiting := s.next :: s.waiting, next := s.next + 1 }
  | start {i : Nat} : i ∈ s.waiting → s.signaled = false →
      Step plan s (.start i) { s with waiting := s.waiting.erase i, busy := i :: s.busy }
  | leave {i : Nat} : i ∈ s.waiting → s.signaled = true →
      Step plan s (.start i)
        { s with waiting := s.waiting.erase i, stop := s.stop.or (some .canceled) }
  | keep {i : Nat} {job : Job} {ended : Ended} : i ∈ s.busy → plan.jobs[i]? = some job →
      job.Ends ended → (∀ f, ended = .failure f → plan.failFast = false) →
      Step plan s (.finish i) { s with busy := s.busy.erase i, ended := (i, ended) :: s.ended }
  | fail {i : Nat} {job : Job} {f : Failure} : i ∈ s.busy → plan.jobs[i]? = some job →
      job.Ends (.failure f) → plan.failFast = true →
      Step plan s (.finish i)
        { s with busy := s.busy.erase i, stop := s.stop.or (some (.failed f)) }
  | fault {i : Nat} {job : Job} {f : Fault} : i ∈ s.busy → plan.jobs[i]? = some job →
      job.Faults f →
      Step plan s (.finish i) { s with busy := s.busy.erase i, stop := some (.fault f) }
  | cancel : s.canceled = false → Step plan s .cancel { s with canceled := true }
  | signal : s.stopped = true → s.signaled = false → Step plan s .signal { s with signaled := true }

/-- **An interleaving**: events that are possible one after the other. -/
inductive Steps (plan : Plan) (s : State) : List Event → State → Prop where
  | refl : Steps plan s [] s
  | tail {events : List Event} {e : Event} {s' s'' : State} :
      Steps plan s events s' → step? plan s' e = some s'' → Steps plan s (events ++ [e]) s''

theorem record_of_table {i : Nat} {job : Job} {t : FrameTable}
    (h : FrameTable.ofMethod job.owner job.method = .ok t) :
    s.record plan i job = { s with ended := (i, .table t) :: s.ended } := by
  rw [State.record, h]

theorem record_of_fault {i : Nat} {job : Job} {f : Fault} (h : job.Faults f) :
    s.record plan i job = { s with stop := some (.fault f) } := by
  rw [State.record, h]

theorem record_of_failed {i : Nat} {job : Job} {error : AnalysisError}
    (h : FrameTable.ofMethod job.owner job.method = .error (.failed error)) :
    s.record plan i job =
      if plan.failFast then s.stopFor (.failed ⟨job.owner, job.method, error⟩)
      else { s with ended := (i, .failure ⟨job.owner, job.method, error⟩) :: s.ended } := by
  rw [State.record, h]

theorem keeps_table (t : FrameTable) :
    ∀ f, Ended.table t = .failure f → plan.failFast = false := by
  intro f h
  cases h

/-- The end of an analysis is recorded in one of three ways. -/
theorem step_of_finish {i : Nat} {job : Job} (hi : i ∈ s.busy) (hjob : plan.jobs[i]? = some job) :
    Step plan s (.finish i) ({ s with busy := s.busy.erase i }.record plan i job) := by
  rcases job.ends_or_faults with ⟨ended, hended⟩ | ⟨f, hf⟩
  · cases hended with
    | table ht =>
      rw [record_of_table ht]
      exact .keep hi hjob (.table ht) (keeps_table _)
    | failure he =>
      rw [record_of_failed he]
      split
      · rename_i hfast
        exact .fail hi hjob (.failure he) hfast
      · rename_i hslow
        exact .keep hi hjob (.failure he) fun _ _ => Bool.eq_false_iff.mpr hslow
  · rw [record_of_fault hf]
    exact .fault hi hjob hf

theorem step_of_step? (h : step? plan s e = some s') : Step plan s e s' := by
  cases e with
  | check =>
    simp only [step?] at h
    split at h
    · exact nomatch h
    rename_i hidle
    simp only [Bool.or_eq_true, decide_eq_true_eq, not_or, Bool.not_eq_true, Nat.not_le] at hidle
    obtain ⟨⟨hclosed, hchecked⟩, hnext⟩ := hidle
    split at h
    · rename_i hsignaled
      cases h
      exact .close hclosed hchecked hnext hsignaled
    · rename_i hsignaled
      cases h
      exact .check hclosed hchecked hnext (Bool.eq_false_iff.mpr hsignaled)
  | launch =>
    simp only [step?] at h
    split at h
    · rename_i hfree
      simp only [Bool.and_eq_true, decide_eq_true_eq] at hfree
      cases h
      exact .launch hfree.1 hfree.2
    · exact nomatch h
  | start i =>
    simp only [step?] at h
    split at h
    · rename_i hi
      have hi : i ∈ s.waiting := List.contains_iff_mem.mp hi
      split at h
      · rename_i hsignaled
        cases h
        exact .leave hi hsignaled
      · rename_i hsignaled
        cases h
        exact .start hi (Bool.eq_false_iff.mpr hsignaled)
    · exact nomatch h
  | finish i =>
    simp only [step?] at h
    split at h
    · rename_i hi
      obtain ⟨job, hjob, h⟩ := Option.map_eq_some_iff.mp h
      cases h
      exact step_of_finish (List.contains_iff_mem.mp hi) hjob
    · exact nomatch h
  | cancel =>
    simp only [step?] at h
    split at h
    · exact nomatch h
    · rename_i hcanceled
      cases h
      exact .cancel (Bool.eq_false_iff.mpr hcanceled)
  | signal =>
    simp only [step?] at h
    split at h
    · rename_i hsignal
      simp only [Bool.and_eq_true, Bool.not_eq_true'] at hsignal
      cases h
      exact .signal hsignal.1 hsignal.2
    · exact nomatch h

theorem step?_of_step (h : Step plan s e s') : step? plan s e = some s' := by
  cases h with
  | check hclosed hchecked hnext hsignaled =>
    simp [step?, hclosed, hchecked, hnext, hsignaled]
  | close hclosed hchecked hnext hsignaled =>
    simp [step?, hclosed, hchecked, hnext, hsignaled]
  | launch hchecked hfree =>
    simp [step?, hchecked, hfree]
  | start hi hsignaled =>
    simp [step?, hi, hsignaled]
  | leave hi hsignaled =>
    simp [step?, hi, hsignaled, State.stopFor]
  | keep hi hjob hended hkeep =>
    simp only [step?, List.contains_iff_mem.mpr hi, if_true, hjob, Option.map_some]
    cases hended with
    | table ht => rw [record_of_table ht]
    | failure he => rw [record_of_failed he, hkeep _ rfl]; rfl
  | fail hi hjob hended hfast =>
    simp only [step?, List.contains_iff_mem.mpr hi, if_true, hjob, Option.map_some]
    cases hended with
    | failure he => rw [record_of_failed he, hfast]; rfl
  | fault hi hjob hf =>
    simp only [step?, List.contains_iff_mem.mpr hi, if_true, hjob, Option.map_some]
    rw [record_of_fault hf]
  | cancel hcanceled =>
    simp [step?, hcanceled]
  | signal hstopped hsignaled =>
    simp [step?, hstopped, hsignaled]

/-- **The possible events are those of the relation.** -/
theorem step?_eq_some_iff : step? plan s e = some s' ↔ Step plan s e s' :=
  ⟨step_of_step?, step?_of_step⟩

/-! ## The work of a batch -/

/-- **What is left to do in a batch**, in events. -/
def State.work (plan : Plan) (s : State) : Nat :=
  4 * (plan.jobs.size - s.next) + (!s.checked).toNat + 2 * s.waiting.length + s.busy.length +
    (!s.closed).toNat + (!s.canceled).toNat + (!s.signaled).toNat

theorem work_initial : State.initial.work plan = 4 * plan.jobs.size + 4 := by
  simp [State.work, State.initial]

/-! ## What holds at any time -/

/-- **What a reason to end a batch says.** A failure is that of a job and counts only with `failFast`; a
cancellation has come from outside; a fault is that of the analysis of a job. -/
def Plan.Justifies (plan : Plan) (canceled : Bool) : Stop → Prop
  | .failed f => plan.failFast = true ∧ ∃ job ∈ plan.jobs, job.Ends (.failure f)
  | .canceled => canceled = true
  | .fault f => ∃ job ∈ plan.jobs, job.Faults f

/-- **The state of a batch is coherent.** Jobs are launched in their order; what can be seen has a reason,
and only what can be seen closes the coordinator. What is kept of a job is how it ends, and unless there is
a reason to end the batch, every job that has been launched is under way or kept. -/
structure State.Coherent (plan : Plan) (s : State) : Prop where
  next_le : s.next ≤ plan.jobs.size
  next_lt : s.checked = true → s.next < plan.jobs.size
  launched : ∀ i, i ∈ s.waiting ∨ i ∈ s.busy → i < s.next
  signaled : s.signaled = true → s.stopped = true
  closed : s.closed = true → s.signaled = true
  kept : ∀ i ended, (i, ended) ∈ s.ended → ∃ job, plan.jobs[i]? = some job ∧ job.Ends ended ∧
    ∀ f, ended = .failure f → plan.failFast = false
  accounted : s.stop = none → ∀ i < s.next, i ∈ s.waiting ∨ i ∈ s.busy ∨ ∃ ended, (i, ended) ∈ s.ended
  justified : ∀ reason, s.stop = some reason → plan.Justifies s.canceled reason

theorem coherent_initial : State.initial.Coherent plan where
  next_le := Nat.zero_le _
  next_lt h := absurd h Bool.false_ne_true
  launched := by simp [State.initial]
  signaled h := absurd h Bool.false_ne_true
  closed h := absurd h Bool.false_ne_true
  kept := by simp [State.initial]
  accounted := by simp [State.initial]
  justified := by simp [State.initial]

/-- A reason that comes after the first one changes nothing. -/
theorem Plan.Justifies.or {canceled : Bool} {stop : Option Stop} {reason : Stop}
    (hstop : ∀ r, stop = some r → plan.Justifies canceled r)
    (hreason : stop = none → plan.Justifies canceled reason) :
    ∀ r, stop.or (some reason) = some r → plan.Justifies canceled r := by
  intro r hr
  cases stop with
  | none =>
    cases hr
    exact hreason rfl
  | some r' =>
    cases hr
    exact hstop r rfl

/-- A cancellation makes no reason worse. -/
theorem Plan.Justifies.canceled {canceled : Bool} {reason : Stop}
    (h : plan.Justifies canceled reason) : plan.Justifies true reason := by
  cases reason with
  | failed f => exact h
  | canceled => rfl
  | fault f => exact h

theorem mem_erase_or_eq {i j : Nat} {l : List Nat} (h : j ∈ l) : j ∈ l.erase i ∨ j = i := by
  by_cases hij : j = i
  · exact Or.inr hij
  · exact Or.inl ((List.mem_erase_of_ne hij).mpr h)

/-- A job that leaves the busy ones while a reason to end the batch is recorded. -/
theorem State.Coherent.stop {i : Nat} {reason : Stop} (hs : s.Coherent plan)
    (hreason : plan.Justifies s.canceled reason) :
    { s with busy := s.busy.erase i, stop := some reason }.Coherent plan where
  next_le := hs.next_le
  next_lt := hs.next_lt
  launched j hj := hs.launched j (hj.imp_right List.mem_of_mem_erase)
  signaled _ := by simp [State.stopped]
  closed := hs.closed
  kept := hs.kept
  accounted h := absurd h (Option.some_ne_none reason)
  justified r hr := by
    cases hr
    exact hreason

/-- **Each event keeps the state coherent.** -/
theorem Step.coherent (h : Step plan s e s') (hs : s.Coherent plan) : s'.Coherent plan := by
  cases h with
  | check hclosed hchecked hnext hsignaled => exact { hs with next_lt := fun _ => hnext }
  | close hclosed hchecked hnext hsignaled => exact { hs with closed := fun _ => hsignaled }
  | launch hchecked hfree =>
    refine { hs with next_le := hs.next_lt hchecked, next_lt := ?_, launched := ?_, accounted := ?_ }
    · exact fun h => absurd h Bool.false_ne_true
    · intro i hi
      rcases hi with hi | hi
      · rcases List.mem_cons.mp hi with rfl | hi
        · exact Nat.lt_succ_self _
        · exact Nat.lt_succ_of_lt (hs.launched i (Or.inl hi))
      · exact Nat.lt_succ_of_lt (hs.launched i (Or.inr hi))
    · intro hstop i hi
      rcases Nat.lt_succ_iff_lt_or_eq.mp hi with hi | rfl
      · exact (hs.accounted hstop i hi).imp_left (List.mem_cons_of_mem _)
      · exact Or.inl List.mem_cons_self
  | @start i hi hsignaled =>
    refine { hs with launched := ?_, accounted := ?_ }
    · intro j hj
      rcases hj with hj | hj
      · exact hs.launched j (Or.inl (List.mem_of_mem_erase hj))
      · rcases List.mem_cons.mp hj with rfl | hj
        · exact hs.launched j (Or.inl hi)
        · exact hs.launched j (Or.inr hj)
    · intro hstop j hj
      rcases hs.accounted hstop j hj with hj | hj | hj
      · rcases mem_erase_or_eq (i := i) hj with hj | rfl
        · exact Or.inl hj
        · exact Or.inr (Or.inl List.mem_cons_self)
      · exact Or.inr (Or.inl (List.mem_cons_of_mem _ hj))
      · exact Or.inr (Or.inr hj)
  | @leave i hi hsignaled =>
    refine { hs with launched := ?_, signaled := ?_, accounted := ?_, justified := ?_ }
    · exact fun j hj => hs.launched j (hj.imp_left List.mem_of_mem_erase)
    · intro _
      cases hstop : s.stop <;> simp [State.stopped]
    · intro hstop
      cases hold : s.stop <;> simp [hold] at hstop
    · refine Plan.Justifies.or hs.justified fun hstop => ?_
      -- What can be seen has a reason, and none has come from inside.
      have hstopped := hs.signaled hsignaled
      show s.canceled = true
      simpa [State.stopped, hstop] using hstopped
  | @keep i job ended hi hjob hended hkeep =>
    refine { hs with launched := ?_, kept := ?_, accounted := ?_ }
    · exact fun j hj => hs.launched j (hj.imp_right List.mem_of_mem_erase)
    · intro j ended' hj
      rcases List.mem_cons.mp hj with heq | hj
      · cases heq
        exact ⟨job, hjob, hended, hkeep⟩
      · exact hs.kept j ended' hj
    · intro hstop j hj
      rcases hs.accounted hstop j hj with hj | hj | ⟨ended', hj⟩
      · exact Or.inl hj
      · rcases mem_erase_or_eq (i := i) hj with hj | rfl
        · exact Or.inr (Or.inl hj)
        · exact Or.inr (Or.inr ⟨ended, List.mem_cons_self⟩)
      · exact Or.inr (Or.inr ⟨ended', List.mem_cons_of_mem _ hj⟩)
  | @fail i job f hi hjob hended hfast =>
    have hreason : plan.Justifies s.canceled (.failed f) :=
      ⟨hfast, job, Array.mem_of_getElem? hjob, hended⟩
    cases hstop : s.stop with
    | none => exact hs.stop hreason
    | some reason => exact hs.stop (hs.justified reason hstop)
  | @fault i job f hi hjob hf => exact hs.stop ⟨job, Array.mem_of_getElem? hjob, hf⟩
  | cancel hcanceled =>
    refine { hs with signaled := fun _ => rfl, justified := ?_ }
    exact fun reason hreason => (hs.justified reason hreason).canceled
  | signal hstopped hsignaled =>
    exact { hs with signaled := fun _ => hstopped, closed := fun _ => rfl }

/-- A job that is busy no more is work done, whatever has become of it. -/
theorem State.work_lt_of_busy {i : Nat} (hi : i ∈ s.busy) (ended : List (Nat × Ended))
    (stop : Option Stop) :
    { s with busy := s.busy.erase i, ended := ended, stop := stop }.work plan < s.work plan := by
  have hlen := List.length_pos_of_mem hi
  simp only [State.work, List.length_erase_of_mem hi]
  omega

/-- **Each event uses up work.** -/
theorem Step.work_lt (h : Step plan s e s') (hs : s.Coherent plan) : s'.work plan < s.work plan := by
  cases h with
  | check hclosed hchecked hnext hsignaled => simp [State.work, hchecked]
  | close hclosed hchecked hnext hsignaled => simp [State.work, hclosed]
  | launch hchecked hfree =>
    have hnext := hs.next_lt hchecked
    simp only [State.work, hchecked, List.length_cons, Bool.not_true, Bool.not_false,
      Bool.toNat_true, Bool.toNat_false]
    omega
  | start hi hsignaled =>
    have hlen := List.length_pos_of_mem hi
    simp only [State.work, List.length_cons, List.length_erase_of_mem hi]
    omega
  | leave hi hsignaled =>
    have hlen := List.length_pos_of_mem hi
    simp only [State.work, List.length_erase_of_mem hi]
    omega
  | keep hi hjob hended hkeep => exact State.work_lt_of_busy hi _ _
  | fail hi hjob hended hfast => exact State.work_lt_of_busy hi _ _
  | fault hi hjob hf => exact State.work_lt_of_busy hi _ _
  | cancel hcanceled => simp [State.work, hcanceled]
  | signal hstopped hsignaled => simp [State.work, hsignaled]

/-! ## Interleavings -/

theorem Steps.coherent (h : Steps plan s events s') (hs : s.Coherent plan) : s'.Coherent plan := by
  induction h with
  | refl => exact hs
  | tail _ hstep ih => exact (step?_eq_some_iff.mp hstep).coherent ih

/-- **An interleaving has no more events than there is work.** -/
theorem Steps.length_le (h : Steps plan s events s') (hs : s.Coherent plan) :
    events.length + s'.work plan ≤ s.work plan := by
  induction h with
  | refl => simp
  | tail hsteps hstep ih =>
    have hlt := (step?_eq_some_iff.mp hstep).work_lt (hsteps.coherent hs)
    rw [List.length_append, List.length_singleton]
    omega

theorem Step.canceled_iff (h : Step plan s e s') :
    s'.canceled = true ↔ s.canceled = true ∨ e = .cancel := by
  cases h with
  | cancel _ => simp
  | _ => simp

/-- A batch is canceled just if this is among the events. -/
theorem Steps.canceled_iff (h : Steps plan s events s') :
    s'.canceled = true ↔ s.canceled = true ∨ .cancel ∈ events := by
  induction h with
  | refl => simp
  | tail _ hstep ih =>
    rw [(step?_eq_some_iff.mp hstep).canceled_iff, ih, List.mem_append, List.mem_singleton, or_assoc]
    simp only [eq_comm]

/-- **A batch that is not done goes on by itself.** -/
theorem exists_step (hs : s.Coherent plan) (hslots : 0 < plan.slots) (hdone : s.done plan = false) :
    ∃ e s', e ≠ .cancel ∧ step? plan s e = some s' := by
  by_cases hwaiting : s.waiting = []
  · by_cases hbusy : s.busy = []
    · -- No job is under way, so it is the turn of the coordinator.
      simp only [State.done, hwaiting, hbusy, List.isEmpty_nil, Bool.and_true, Bool.or_eq_false_iff,
        decide_eq_false_iff_not, Nat.not_le] at hdone
      obtain ⟨hclosed, hnext⟩ := hdone
      by_cases hchecked : s.checked = true
      · have hfree : s.waiting.length + s.busy.length < plan.slots := by
          rw [hwaiting, hbusy]
          exact hslots
        exact ⟨.launch, _, nofun, step?_eq_some_iff.mpr (.launch hchecked hfree)⟩
      · have hchecked : s.checked = false := Bool.eq_false_iff.mpr hchecked
        cases hsignaled : s.signaled with
        | true => exact ⟨.check, _, nofun, step?_eq_some_iff.mpr (.close hclosed hchecked hnext hsignaled)⟩
        | false => exact ⟨.check, _, nofun, step?_eq_some_iff.mpr (.check hclosed hchecked hnext hsignaled)⟩
    · obtain ⟨i, hi⟩ := List.exists_mem_of_ne_nil _ hbusy
      have hsize : i < plan.jobs.size := Nat.lt_of_lt_of_le (hs.launched i (Or.inr hi)) hs.next_le
      have hjob : plan.jobs[i]? = some plan.jobs[i] := Array.getElem?_eq_getElem hsize
      exact ⟨.finish i, _, nofun, step?_eq_some_iff.mpr (step_of_finish hi hjob)⟩
  · obtain ⟨i, hi⟩ := List.exists_mem_of_ne_nil _ hwaiting
    cases hsignaled : s.signaled with
    | true => exact ⟨.start i, _, nofun, step?_eq_some_iff.mpr (.leave hi hsignaled)⟩
    | false => exact ⟨.start i, _, nofun, step?_eq_some_iff.mpr (.start hi hsignaled)⟩

end Batch

end StackMap
