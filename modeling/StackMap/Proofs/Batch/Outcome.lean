import Mathlib.Data.List.Forall2
import StackMap.Proofs.Batch.Sequential
import StackMap.Proofs.Flow.Fault
import StackMap.Proofs.Flow.Location
import StackMap.Proofs.Flow.Parameters
import StackMap.Proofs.Flow.Replay
import StackMap.Proofs.Outcome

/-!
# `Proofs.Batch.Outcome`: what a batch gives

A batch that has not been stopped gives the outcome of every job, and only this, in the order of the jobs:
the order in which the jobs end leaves no trace. A batch that has been stopped gives the reason, and none
of what has been found. There is nothing in between, as long as no analysis faults: a fault is not returned,
but ends everything.

## Contents

* `Outcomes.Accounts`: outcomes in which every job has its place.
* `State.Coherent.ok_accounts`, `State.Coherent.error_justified`: the results of a batch that is done.
* `same_outcomes`: without `failFast` and a cancellation, all interleavings give the same outcomes.
* `complete_or_stopped`: every interleaving gives all outcomes or the reason why there are none.
* `State.Answered`, `faulting_batch_returns_nothing`: batches that give neither.
-/

namespace StackMap

/-- **Every job is accounted for**, once and in order: its table is the next one of the tables, or its
failure the next one of the failures, and there are no others. -/
inductive Outcomes.Accounts : Outcomes → List Job → Prop where
  | nil : Accounts ⟨[], []⟩ []
  | table {job : Job} {jobs : List Job} {t : FrameTable} {o : Outcomes} :
      job.Ends (.table t) → o.Accounts jobs → Accounts ⟨t :: o.tables, o.failures⟩ (job :: jobs)
  | failure {job : Job} {jobs : List Job} {f : Failure} {o : Outcomes} :
      job.Ends (.failure f) → o.Accounts jobs → Accounts ⟨o.tables, f :: o.failures⟩ (job :: jobs)

namespace Outcomes

variable {o o' : Outcomes} {jobs : List Job}

/-- Jobs without faults are accounted for in some way. -/
theorem exists_accounts (h : ∀ job ∈ jobs, ∀ f, ¬ job.Faults f) : ∃ o : Outcomes, o.Accounts jobs := by
  induction jobs with
  | nil => exact ⟨_, .nil⟩
  | cons job jobs ih =>
    obtain ⟨hjob, hjobs⟩ := List.forall_mem_cons.mp h
    obtain ⟨o, ho⟩ := ih hjobs
    rcases job.ends_or_faults with ⟨ended, hended⟩ | ⟨f, hf⟩
    · cases ended with
      | table t => exact ⟨_, .table hended ho⟩
      | failure f => exact ⟨_, .failure hended ho⟩
    · exact absurd hf (hjob f)

/-- **There is one way only.** -/
theorem Accounts.unique (h : o.Accounts jobs) (h' : o'.Accounts jobs) : o = o' := by
  induction h generalizing o' with
  | nil =>
    cases h'
    rfl
  | table hended _ ih =>
    cases h' with
    | table hended' htail =>
      cases hended.unique hended'
      rw [ih htail]
    | failure hended' _ => exact nomatch hended.unique hended'
  | failure hended _ ih =>
    cases h' with
    | table hended' _ => exact nomatch hended.unique hended'
    | failure hended' htail =>
      cases hended.unique hended'
      rw [ih htail]

theorem Accounts.mem_failures (h : o.Accounts jobs) {job : Job} {f : Failure} (hjob : job ∈ jobs)
    (hf : job.Ends (.failure f)) : f ∈ o.failures := by
  induction h with
  | nil => exact absurd hjob List.not_mem_nil
  | table hended _ ih =>
    rcases List.mem_cons.mp hjob with rfl | hjob
    · exact nomatch hended.unique hf
    · exact ih hjob
  | failure hended _ ih =>
    rcases List.mem_cons.mp hjob with rfl | hjob
    · cases hended.unique hf
      exact List.mem_cons_self
    · exact List.mem_cons_of_mem _ (ih hjob)

end Outcomes

namespace Batch

variable {plan : Plan} {s s' : State} {e : Event} {events : List Event}

/-! ## From what is kept to the outcomes -/

theorem accounts_outcomesOf {jobs : List Job} {ended : List Ended}
    (h : List.Forall₂ Job.Ends jobs ended) : (outcomesOf ended).Accounts jobs := by
  induction h with
  | nil => exact .nil
  | @cons job e jobs ended hended _ ih =>
    cases e with
    | table t => exact .table hended ih
    | failure f => exact .failure hended ih

theorem failures_outcomesOf {ended : List Ended} (h : ∀ e ∈ ended, ∀ f, e ≠ .failure f) :
    (outcomesOf ended).failures = [] := by
  refine List.filterMap_eq_nil_iff.mpr fun e he => ?_
  cases e with
  | table t => rfl
  | failure f => exact absurd rfl (h _ he f)

/-- A look-up for each position in turn. -/
theorem forall₂_filterMap_range {jobs : List Job} {find : Nat → Option Ended}
    (h : ∀ i job, jobs[i]? = some job → ∃ e, find i = some e ∧ job.Ends e) :
    List.Forall₂ Job.Ends jobs ((List.range jobs.length).filterMap find) := by
  induction jobs generalizing find with
  | nil => exact .nil
  | cons job jobs ih =>
    obtain ⟨e, hfind, hended⟩ := h 0 job rfl
    have htail : ∀ i job, jobs[i]? = some job → ∃ e, (find ∘ Nat.succ) i = some e ∧ job.Ends e :=
      fun i job hjob => h (i + 1) job hjob
    rw [List.length_cons, List.range_succ_eq_map, List.filterMap_cons_some hfind, List.filterMap_map]
    exact .cons hended (ih htail)

/-! ## The result of a batch that is done -/

/-- **In a batch that is done and has not been stopped, something is kept of every job.** -/
theorem State.Coherent.exists_kept (hs : s.Coherent plan) (hdone : s.done plan = true)
    (hstop : s.stop = none) (hcanceled : s.canceled = false) {i : Nat} (hi : i < plan.jobs.size) :
    ∃ ended, (i, ended) ∈ s.ended := by
  simp only [State.done, Bool.and_eq_true, Bool.or_eq_true, decide_eq_true_eq,
    List.isEmpty_iff] at hdone
  obtain ⟨⟨hend, hwaiting⟩, hbusy⟩ := hdone
  have hnext : plan.jobs.size ≤ s.next := by
    rcases hend with hclosed | hnext
    · -- The coordinator closes only for a reason, and there is none.
      have hstopped := hs.signaled (hs.closed hclosed)
      simp [State.stopped, hstop, hcanceled] at hstopped
    · exact hnext
  rcases hs.accounted hstop i (Nat.lt_of_lt_of_le hi hnext) with hmem | hmem | hmem
  · rw [hwaiting] at hmem
    exact absurd hmem List.not_mem_nil
  · rw [hbusy] at hmem
    exact absurd hmem List.not_mem_nil
  · exact hmem

/-- **Outcomes are complete.** -/
theorem State.Coherent.ok_accounts (hs : s.Coherent plan) (hdone : s.done plan = true) {o : Outcomes}
    (h : s.result plan = .ok o) :
    o.Accounts plan.jobs.toList ∧ s.canceled = false ∧ (plan.failFast = true → o.failures = []) := by
  unfold State.result at h
  split at h
  · exact nomatch h
  rename_i hstop
  split at h
  · exact nomatch h
  rename_i hcanceled
  have hcanceled : s.canceled = false := Bool.eq_false_iff.mpr hcanceled
  cases h
  refine ⟨?_, hcanceled, fun hfast => ?_⟩
  · refine accounts_outcomesOf (forall₂_filterMap_range fun i job hjob => ?_)
    have hjob : plan.jobs[i]? = some job := by rwa [Array.getElem?_toList] at hjob
    obtain ⟨hi, -⟩ := Array.getElem?_eq_some_iff.mp hjob
    obtain ⟨ended, hmem⟩ := hs.exists_kept hdone hstop hcanceled hi
    obtain ⟨found, hfound⟩ := exists_lookup hmem
    obtain ⟨job', hjob', hended, -⟩ := hs.kept i found (mem_of_lookup hfound)
    cases hjob.symm.trans hjob'
    exact ⟨found, hfound, hended⟩
  · refine failures_outcomesOf fun ended hended f hf => ?_
    obtain ⟨i, -, hfound⟩ := List.mem_filterMap.mp hended
    obtain ⟨job, -, -, hslow⟩ := hs.kept i ended (mem_of_lookup hfound)
    rw [hslow f hf] at hfast
    exact Bool.false_ne_true hfast

/-- With `failFast` there are outcomes only if no job fails: they would keep its failure, and keep none. -/
theorem State.Coherent.not_ends_failure (hs : s.Coherent plan) (hdone : s.done plan = true)
    {o : Outcomes} (h : s.result plan = .ok o) (hfast : plan.failFast = true) {job : Job}
    (hjob : job ∈ plan.jobs) (f : Failure) : ¬ job.Ends (.failure f) := by
  intro hended
  obtain ⟨haccounts, -, hnone⟩ := hs.ok_accounts hdone h
  have hmem := haccounts.mem_failures (Array.mem_toList_iff.mpr hjob) hended
  rw [hnone hfast] at hmem
  exact List.not_mem_nil hmem

/-- **A batch without outcomes has a reason.** -/
theorem State.Coherent.error_justified (hs : s.Coherent plan) {reason : Stop}
    (h : s.result plan = .error reason) : plan.Justifies s.canceled reason := by
  unfold State.result at h
  split at h
  · rename_i hstop
    cases h
    exact hs.justified _ hstop
  · split at h
    · rename_i hcanceled
      cases h
      exact hcanceled
    · exact nomatch h

/-! ## Two methods and two workers -/

namespace Mixed

/-- A class with a method that fails and one that does not. -/
def cls : Class where
  major := 52
  minor := 0
  access := 0x21
  name := "C"
  super := Class.rootName
  interfaces := []
  fields := []
  methods := [DeadPop.method, Countdown.method]

def batch (failFast : Bool) : Plan := planFor (fun _ _ => true) [cls] 2 1 failFast

def failure : Failure := ⟨"C", DeadPop.method, .insn ⟨.plain ⟨0x57⟩, some 3, .stackUnderflow⟩⟩

def table : FrameTable := ⟨"C", Countdown.method, Countdown.frames⟩

theorem jobs_eq : jobs (fun _ _ => true) [cls] = [⟨"C", DeadPop.method⟩, ⟨"C", Countdown.method⟩] := rfl

theorem ends_failure : Job.Ends ⟨"C", DeadPop.method⟩ (.failure failure) :=
  .failure (by rw [FrameTable.ofMethod, DeadPop.analyze_eq]; rfl)

theorem ends_table : Job.Ends ⟨"C", Countdown.method⟩ (.table table) :=
  .table (by rw [FrameTable.ofMethod, Countdown.analyze_eq]; rfl)

theorem not_faults : ∀ job ∈ jobs (fun _ _ => true) [cls], ∀ f, ¬ job.Faults f := by
  rw [jobs_eq]
  intro job hjob f hf
  rcases List.mem_pair.mp hjob with rfl | rfl
  · exact ends_failure.not_faults hf
  · exact ends_table.not_faults hf

/-- Both jobs have begun, the second one before the first. -/
def begun : State := { State.initial with next := 2, busy := [0, 1] }

theorem steps_begun (failFast : Bool) {events : List Event} {s : State}
    (h : Steps (batch failFast) begun events s) :
    Steps (batch failFast) .initial
      ([.check, .launch, .check, .launch, .start 1, .start 0] ++ events) s :=
  .cons rfl (.cons rfl (.cons rfl (.cons rfl (.cons rfl (.cons rfl h)))))

/-- Both jobs have ended, the second one before the first. -/
def kept : State := { begun with busy := [], ended := [(0, .failure failure), (1, .table table)] }

theorem steps_kept : Steps (batch false) begun [.finish 1, .finish 0] kept :=
  have htable := Step.keep (List.mem_pair.mpr (Or.inr rfl)) rfl ends_table (keeps_table table)
  have hfailure := Step.keep List.mem_cons_self rfl ends_failure fun _ _ => rfl
  .cons (step?_eq_some_iff.mpr htable) (.cons (step?_eq_some_iff.mpr hfailure) .refl)

/-- The first job has ended the batch while the second one was under way. -/
def failed : State :=
  { begun with busy := [], ended := [(1, .table table)], stop := some (.failed failure), signaled := true }

theorem steps_failed : Steps (batch true) begun [.finish 0, .signal, .finish 1] failed :=
  have hfailure := Step.fail List.mem_cons_self rfl ends_failure rfl
  have htable := Step.keep List.mem_cons_self rfl ends_table (keeps_table table)
  .cons (step?_eq_some_iff.mpr hfailure) (.cons rfl (.cons (step?_eq_some_iff.mpr htable) .refl))

end Mixed

/-! ## The results of all interleavings -/

theorem slotsFor_pos (workers : Int) (processors : Nat) : 0 < slotsFor workers processors := by
  unfold slotsFor
  split <;> omega

section

variable {selects : String → Method → Bool} {classes : List Class} {workers : Int} {processors : Nat}
  {failFast : Bool}

theorem mem_jobs_planFor {job : Job} :
    job ∈ (planFor selects classes workers processors failFast).jobs ↔ job ∈ jobs selects classes :=
  List.mem_toArray

/-- **An interleaving from the beginning is short and does not get stuck.** -/
theorem Steps.short_and_live
    (h : Steps (planFor selects classes workers processors failFast) .initial events s) :
    events.length ≤ 4 * (jobs selects classes).length + 4 ∧
    (s.done (planFor selects classes workers processors failFast) = false → ∃ e s', e ≠ .cancel ∧
      step? (planFor selects classes workers processors failFast) s e = some s') := by
  refine ⟨?_, exists_step (h.coherent coherent_initial) (slotsFor_pos workers processors)⟩
  have hlength := h.length_le coherent_initial
  rw [work_initial] at hlength
  exact Nat.le_of_add_right_le hlength

/-- A batch is canceled just if this is among its events, from the beginning. -/
theorem Steps.canceled_eq (h : Steps plan .initial events s) :
    s.canceled = events.contains .cancel := by
  rw [Bool.eq_iff_iff, h.canceled_iff, List.contains_iff_mem, or_iff_right]
  exact Bool.false_ne_true

theorem Steps.canceled_eq_false_iff (h : Steps plan .initial events s) :
    s.canceled = false ↔ .cancel ∉ events := by
  rw [← Bool.not_eq_true, h.canceled_eq, List.contains_iff_mem]

/-- **Without faults** a batch is ended by the failure of a selected method, with `failFast`, or by a
cancellation. -/
theorem Steps.failed_or_canceled (hfaults : ∀ job ∈ jobs selects classes, ∀ f, ¬ job.Faults f)
    (h : Steps (planFor selects classes workers processors failFast) .initial events s) {reason : Stop}
    (hres : s.result (planFor selects classes workers processors failFast) = .error reason) :
    (∃ f, reason = .failed f ∧ failFast = true ∧
      ∃ job ∈ jobs selects classes, job.Ends (.failure f)) ∨
    reason = .canceled ∧ .cancel ∈ events := by
  have hreason := (h.coherent coherent_initial).error_justified hres
  rw [h.canceled_eq] at hreason
  cases reason with
  | failed f =>
    obtain ⟨hfast, job, hjob, hended⟩ := hreason
    exact Or.inl ⟨f, rfl, hfast, job, mem_jobs_planFor.mp hjob, hended⟩
  | canceled => exact Or.inr ⟨rfl, List.contains_iff_mem.mp hreason⟩
  | fault f =>
    obtain ⟨job, hjob, hf⟩ := hreason
    exact absurd hf (hfaults job (mem_jobs_planFor.mp hjob) f)

/-- **All interleavings give the same outcomes.** If no analysis faults, a batch without `failFast` that
is not canceled gives the outcome of each selected method by itself, in order, and nothing else. The
sequential schedule gives this; and every interleaving is short, goes on by itself until the batch is done,
and then has given this too. -/
theorem same_outcomes (hplan : plan = planFor selects classes workers processors false)
    (hfaults : ∀ job ∈ jobs selects classes, ∀ f, ¬ job.Faults f) :
    ∃ o : Outcomes, o.Accounts (jobs selects classes) ∧ analyze plan false = .ok o ∧
      ∀ events s, Steps plan .initial events s → .cancel ∉ events →
        events.length ≤ 4 * (jobs selects classes).length + 4 ∧
        (s.done plan = false → ∃ e s', e ≠ .cancel ∧ step? plan s e = some s') ∧
        (s.done plan = true → s.result plan = .ok o) := by
  subst hplan
  obtain ⟨o, ho⟩ := Outcomes.exists_accounts hfaults
  have hresult : ∀ events s,
      Steps (planFor selects classes workers processors false) .initial events s →
      .cancel ∉ events → s.done (planFor selects classes workers processors false) = true →
      s.result (planFor selects classes workers processors false) = .ok o := by
    intro events s hsteps hcancel hdone
    have hs := hsteps.coherent coherent_initial
    cases hres : s.result (planFor selects classes workers processors false) with
    | ok o' => rw [(hs.ok_accounts hdone hres).1.unique ho]
    | error reason =>
      rcases hsteps.failed_or_canceled hfaults hres with ⟨_, -, hfast, -⟩ | ⟨-, hmem⟩
      · exact absurd hfast Bool.false_ne_true
      · exact absurd hmem hcancel
  refine ⟨o, ho, ?_, fun events s hsteps hcancel => ?_⟩
  · obtain ⟨events, s, hsteps, hdone, hcancel, hanalyze⟩ :=
      exists_steps_analyze (planFor selects classes workers processors false)
        (slotsFor_pos workers processors) false
    rw [hanalyze]
    exact hresult events s hsteps (fun h => Bool.false_ne_true (hcancel.mp h)) hdone
  · obtain ⟨hshort, hlive⟩ := hsteps.short_and_live
    exact ⟨hshort, hlive, hresult events s hsteps hcancel⟩

/-- The table and the failure of the two methods are given by the library, as the workers give them. -/
theorem same_outcomes_mixed :
    (∀ job ∈ jobs (fun _ _ => true) [Mixed.cls], ∀ f, ¬ job.Faults f) ∧
      analyze (Mixed.batch false) false = .ok ⟨[Mixed.table], [Mixed.failure]⟩ := by
  obtain ⟨o, -, hanalyze, hall⟩ := same_outcomes
    (rfl : Mixed.batch false = planFor (fun _ _ => true) [Mixed.cls] 2 1 false) Mixed.not_faults
  have hresult : Mixed.kept.result (Mixed.batch false) = .ok o :=
    (hall _ _ (Mixed.steps_begun false Mixed.steps_kept) (by decide)).2.2 rfl
  rw [hanalyze, ← hresult]
  exact ⟨Mixed.not_faults, rfl⟩

/-- **Every interleaving gives all outcomes or the reason why there are none**, if no analysis faults,
whenever the batch is canceled. The reason is the failure of a selected method, with `failFast`, or the
cancellation. With `failFast` and without a cancellation there is a reason just if some selected method
fails by itself, and then it is the failure of one that does. -/
theorem complete_or_stopped (hplan : plan = planFor selects classes workers processors failFast)
    (hfaults : ∀ job ∈ jobs selects classes, ∀ f, ¬ job.Faults f)
    (h : Steps plan .initial events s) :
    events.length ≤ 4 * (jobs selects classes).length + 4 ∧
    (s.done plan = false → ∃ e s', e ≠ .cancel ∧ step? plan s e = some s') ∧
    (s.done plan = true →
      ((∃ o, s.result plan = .ok o ∧ o.Accounts (jobs selects classes) ∧ .cancel ∉ events) ∨
        (∃ f, s.result plan = .error (.failed f) ∧ failFast = true ∧
          ∃ job ∈ jobs selects classes, job.Ends (.failure f)) ∨
        s.result plan = .error .canceled ∧ .cancel ∈ events) ∧
      (failFast = true → .cancel ∉ events →
        ((∃ reason, s.result plan = .error reason) ↔
          ∃ job ∈ jobs selects classes, ∃ f, job.Ends (.failure f)) ∧
        ∀ reason, s.result plan = .error reason →
          ∃ f, reason = .failed f ∧ ∃ job ∈ jobs selects classes, job.Ends (.failure f))) := by
  subst hplan
  obtain ⟨hshort, hlive⟩ := h.short_and_live
  have hs := h.coherent coherent_initial
  refine ⟨hshort, hlive, fun hdone => ⟨?_, fun hfast hcancel => ?_⟩⟩
  · cases hres : s.result (planFor selects classes workers processors failFast) with
    | ok o =>
      obtain ⟨haccounts, hcanceled, -⟩ := hs.ok_accounts hdone hres
      exact Or.inl ⟨o, rfl, haccounts, h.canceled_eq_false_iff.mp hcanceled⟩
    | error reason =>
      rcases h.failed_or_canceled hfaults hres with ⟨f, rfl, hfailed⟩ | ⟨rfl, hcancel⟩
      · exact Or.inr (Or.inl ⟨f, rfl, hfailed⟩)
      · exact Or.inr (Or.inr ⟨rfl, hcancel⟩)
  · -- Of the two reasons only the failure of a method is left.
    have hfailed : ∀ reason,
        s.result (planFor selects classes workers processors failFast) = .error reason →
        ∃ f, reason = .failed f ∧ ∃ job ∈ jobs selects classes, job.Ends (.failure f) := by
      intro reason hres
      obtain ⟨f, hf, -, hended⟩ :=
        (h.failed_or_canceled hfaults hres).resolve_right fun hcanceled => hcancel hcanceled.2
      exact ⟨f, hf, hended⟩
    refine ⟨⟨?_, ?_⟩, hfailed⟩
    · rintro ⟨reason, hres⟩
      obtain ⟨f, -, job, hjob, hended⟩ := hfailed reason hres
      exact ⟨job, hjob, f, hended⟩
    · rintro ⟨job, hjob, f, hended⟩
      cases hres : s.result (planFor selects classes workers processors failFast) with
      | ok o => exact absurd hended (hs.not_ends_failure hdone hres hfast (mem_jobs_planFor.mpr hjob) f)
      | error reason => exact ⟨reason, rfl⟩

/-- With `failFast` the failure of the first method is the reason, although the second one has a table. -/
theorem complete_or_stopped_mixed :
    (∀ job ∈ jobs (fun _ _ => true) [Mixed.cls], ∀ f, ¬ job.Faults f) ∧
      Mixed.failed.done (Mixed.batch true) = true ∧
      Mixed.failed.result (Mixed.batch true) = .error (.failed Mixed.failure) ∧
      ∃ job ∈ jobs (fun _ _ => true) [Mixed.cls], ∃ f, job.Ends (.failure f) := by
  have hplan : Mixed.batch true = planFor (fun _ _ => true) [Mixed.cls] 2 1 true := rfl
  have hresult : Mixed.failed.result (Mixed.batch true) = .error (.failed Mixed.failure) := rfl
  obtain ⟨-, -, hdone⟩ :=
    complete_or_stopped hplan Mixed.not_faults (Mixed.steps_begun true Mixed.steps_failed)
  obtain ⟨-, hfast⟩ := hdone rfl
  exact ⟨Mixed.not_faults, rfl, hresult, (hfast rfl (by decide)).1.mp ⟨_, hresult⟩⟩

end

/-! ## A method and one worker

The analysis of the one method faults, because its stack would have a size below zero or because of a class
of its code. There is nothing for the caller then: no outcomes, and no reason that could be returned. -/

/-- The caller of a batch that is done is given something: outcomes, the failure of a method, or that the
batch was canceled. -/
def State.Answered (plan : Plan) (s : State) : Prop :=
  (∃ o, s.result plan = .ok o) ∨ (∃ f, s.result plan = .error (.failed f)) ∨
    s.result plan = .error .canceled

/-- A batch of one job that faults comes to its end. -/
theorem exists_steps_fault {job : Job} {f : Fault} (hjobs : plan.jobs = #[job])
    (hslots : 0 < plan.slots) (hf : job.Faults f) :
    ∃ events s, Steps plan .initial events s ∧ s.done plan = true ∧
      s.result plan = .error (.fault f) := by
  let looked : State := { State.initial with checked := true }
  let launched : State := { State.initial with waiting := [0], next := 1 }
  let busy : State := { State.initial with busy := [0], next := 1 }
  let faulted : State := { State.initial with next := 1, stop := some (.fault f) }
  have hsize : 0 < plan.jobs.size := by
    rw [hjobs]
    exact Nat.one_pos
  have hjob : plan.jobs[0]? = some job := by
    rw [hjobs]
    rfl
  have hcheck : Step plan .initial .check looked := .check rfl rfl hsize rfl
  have hlaunch : Step plan looked .launch launched := .launch rfl hslots
  have hstart : Step plan launched (.start 0) busy := .start List.mem_cons_self rfl
  have hfinish : Step plan busy (.finish 0) faulted := .fault List.mem_cons_self hjob hf
  refine ⟨[.check, .launch, .start 0, .finish 0], faulted, ?_, ?_, rfl⟩
  · exact .cons (step?_of_step hcheck) (.cons (step?_of_step hlaunch)
      (.cons (step?_of_step hstart) (.cons (step?_of_step hfinish) .refl)))
  · simp [State.done, State.initial, faulted, hjobs]

/-- **A fault is no answer.** -/
theorem not_answered_of_faults {job : Job} {f : Fault} (hjobs : plan.jobs = #[job])
    (hslots : 0 < plan.slots) (hf : job.Faults f) :
    ¬ ∀ events s, Steps plan .initial events s → s.done plan = true → s.Answered plan := by
  intro h
  obtain ⟨events, s, hsteps, hdone, hresult⟩ := exists_steps_fault hjobs hslots hf
  rcases h events s hsteps hdone with ⟨o, ho⟩ | ⟨failure, hfailed⟩ | hcanceled
  · exact nomatch hresult.symm.trans ho
  · exact nomatch hresult.symm.trans hfailed
  · exact nomatch hresult.symm.trans hcanceled

namespace Faulting

def cls : Class := { Mixed.cls with methods := [NegativeStack.method] }

def batch (c : Class) : Plan := planFor (fun _ _ => true) [c] 1 1 false

theorem faults : Job.Faults ⟨"C", NegativeStack.method⟩ .negativeSize :=
  Job.faults_of_analyze NegativeStack.analyze_eq

theorem faults_arrayOfNothing : Job.Faults ⟨"A", Flow.ArrayOfNothing.method⟩ (.type .endOfText) :=
  Job.faults_of_analyze Flow.ArrayOfNothing.analyze_eq

end Faulting

/-- **With a fault it fails**: batches of which some interleaving ends without outcomes, without the failure
of a method and without a cancellation. -/
theorem faulting_batch_returns_nothing :
    (¬ ∀ events s, Steps (Faulting.batch Faulting.cls) .initial events s →
      s.done (Faulting.batch Faulting.cls) = true → s.Answered (Faulting.batch Faulting.cls)) ∧
    ¬ ∀ events s, Steps (Faulting.batch Flow.ArrayOfNothing.aClass) .initial events s →
      s.done (Faulting.batch Flow.ArrayOfNothing.aClass) = true →
        s.Answered (Faulting.batch Flow.ArrayOfNothing.aClass) :=
  ⟨not_answered_of_faults rfl Nat.one_pos Faulting.faults,
    not_answered_of_faults rfl Nat.one_pos Faulting.faults_arrayOfNothing⟩

end Batch

end StackMap
