import StackMap.Class
import StackMap.FrameTable

/-!
# `Batch`: many methods at once

The selected methods of several classes are analysed side by side by a limited number of workers. A
coordinator hands out the methods in order; it looks whether the batch has been stopped, waits until a
worker is free and launches the next job. A worker looks once more before it begins, and then runs its
job to the end. The batch is stopped from outside, by a cancellation, or from inside, by the first job
that ends it. Such a reason is there before the coordinator and the workers can see it, and in between
jobs may still be launched and begin. A fault of an analysis ends everything.

The interleaving of these events is left open: `Batch.step?` says which are possible and what each does.
The library itself takes one schedule, in which every job ends before the next one is looked at.

## Contents

* `Job`, `Failure`, `Stop`, `Outcomes`: what a batch works on, and how it ends.
* `Batch.jobs`, `Batch.planFor`: the selected methods, in the order of classes and declarations.
* `Batch.Event`, `Batch.State`, `Batch.step?`: the events of a batch.
* `Batch.State.done`, `Batch.outcomesOf`, `Batch.State.result`: the end of a batch.
* `Batch.analyze`: a batch under the sequential schedule.
-/

namespace StackMap

/-- A method to be analysed. -/
structure Job where
  owner : String
  method : Method
  deriving Repr

/-- A method whose analysis failed. -/
structure Failure where
  owner : String
  method : Method
  error : AnalysisError
  deriving Repr

/-- The wording of a `Failure`. -/
def Failure.message (f : Failure) : String := f.method.fullName f.owner ++ ": " ++ f.error.message

/-- Why a batch ended without results. -/
inductive Stop where
  /-- A method failed, and the batch was to end with the first failure. -/
  | failed (f : Failure)
  | canceled
  /-- An analysis faulted. Unlike the others this is no error that the caller is given. -/
  | fault (f : Fault)
  deriving Repr

/-- The results of a batch, both in the order of the jobs. -/
structure Outcomes where
  tables : List FrameTable
  failures : List Failure
  deriving Repr

/-- The position of the first table of a method. -/
def Outcomes.find? (o : Outcomes) (owner name desc : String) : Option Nat :=
  o.tables.findIdx? fun t => t.owner == owner && t.method.name == name && t.method.desc == desc

namespace Batch

/-- **What a batch is asked to do.** At most `slots` jobs are launched and not yet ended. With `failFast`
the first failure ends the batch. -/
structure Plan where
  jobs : Array Job
  slots : Nat
  failFast : Bool

/-- The number of workers: as asked for, or one for each processor. -/
def slotsFor (workers : Int) (processors : Nat) : Nat :=
  if workers ≤ 0 then max 1 processors else workers.toNat

/-- **The selected methods**, in the order of classes and declarations: those with code that pass the
filter. -/
def jobs (selects : String → Method → Bool) (classes : List Class) : List Job :=
  classes.flatMap fun c =>
    (c.methods.filter fun m => m.hasCode && selects c.name m).map fun m => ⟨c.name, m⟩

/-- The plan of a batch for classes. -/
def planFor (selects : String → Method → Bool) (classes : List Class) (workers : Int)
    (processors : Nat) (failFast : Bool) : Plan :=
  ⟨(jobs selects classes).toArray, slotsFor workers processors, failFast⟩

/-- What happens in a batch. -/
inductive Event where
  /-- The coordinator looks whether the batch has been stopped. -/
  | check
  /-- The coordinator launches the next job. -/
  | launch
  /-- The worker of a job looks whether the batch has been stopped, and begins. -/
  | start (job : Nat)
  /-- The analysis of a job ends. -/
  | finish (job : Nat)
  /-- The batch is canceled from outside. -/
  | cancel
  /-- It can be seen from now on that the batch has been stopped. -/
  | signal
  deriving Repr, DecidableEq

/-- How a job ended. -/
inductive Ended where
  | table (t : FrameTable)
  | failure (f : Failure)
  deriving Repr

/-- **The state of a batch.** `next` is the job to be launched next, `checked` says that the coordinator
has looked and is about to launch it, and `closed` that it launches no more. `stop` is the first reason
from inside to end the batch, and `signaled` says that the coordinator and the workers can see that there
is a reason. -/
structure State where
  next : Nat
  checked : Bool
  closed : Bool
  waiting : List Nat
  busy : List Nat
  ended : List (Nat × Ended)
  stop : Option Stop
  canceled : Bool
  signaled : Bool

/-- The state at the beginning. -/
def State.initial : State := ⟨0, false, false, [], [], [], none, false, false⟩

/-- Whether there is a reason to end the batch, from inside or from outside. -/
def State.stopped (s : State) : Bool := s.canceled || s.stop.isSome

/-- The state with a reason to end the batch, of which only the first counts. -/
def State.stopFor (s : State) (reason : Stop) : State :=
  { s with stop := s.stop.or (some reason) }

/-- The state after the analysis of a job. A fault counts more than any reason before it. -/
def State.record (plan : Plan) (s : State) (i : Nat) (job : Job) : State :=
  match FrameTable.ofMethod job.owner job.method with
  | .ok t => { s with ended := (i, .table t) :: s.ended }
  | .error (.fault f) => { s with stop := some (.fault f) }
  | .error (.failed e) =>
    let failure : Failure := ⟨job.owner, job.method, e⟩
    if plan.failFast then s.stopFor (.failed failure)
    else { s with ended := (i, .failure failure) :: s.ended }

/-- **The effect of an event**, if it is possible. -/
def step? (plan : Plan) (s : State) : Event → Option State
  | .check =>
    if s.closed || s.checked || plan.jobs.size ≤ s.next then none
    else if s.signaled then some { s with closed := true }
    else some { s with checked := true }
  | .launch =>
    if s.checked && s.waiting.length + s.busy.length < plan.slots then
      some { s with checked := false, waiting := s.next :: s.waiting, next := s.next + 1 }
    else none
  | .start i =>
    if s.waiting.contains i then
      let s := { s with waiting := s.waiting.erase i }
      if s.signaled then some (s.stopFor .canceled) else some { s with busy := i :: s.busy }
    else none
  | .finish i =>
    if s.busy.contains i then
      let s := { s with busy := s.busy.erase i }
      (plan.jobs[i]?).map (s.record plan i)
    else none
  | .cancel => if s.canceled then none else some { s with canceled := true }
  | .signal => if s.stopped && !s.signaled then some { s with signaled := true } else none

/-- The state after several events, of which those that are not possible change nothing. -/
def run (plan : Plan) (s : State) (events : List Event) : State :=
  events.foldl (fun s e => (step? plan s e).getD s) s

/-- Whether all jobs that were launched have ended and no more will be launched. -/
def State.done (plan : Plan) (s : State) : Bool :=
  (s.closed || plan.jobs.size ≤ s.next) && s.waiting.isEmpty && s.busy.isEmpty

/-- The tables and the failures among jobs that have ended, in their order. -/
def outcomesOf (ended : List Ended) : Outcomes where
  tables := ended.filterMap fun
    | .table t => some t
    | .failure _ => none
  failures := ended.filterMap fun
    | .table _ => none
    | .failure f => some f

/-- The tables and failures of the jobs that have ended, in the order of the jobs. -/
def State.outcomes (plan : Plan) (s : State) : Outcomes :=
  outcomesOf ((List.range plan.jobs.size).filterMap (s.ended.lookup ·))

/-- **The result of a batch that is done**: the first reason to end it, or else the cancellation, or else
what became of each job. -/
def State.result (plan : Plan) (s : State) : Except Stop Outcomes :=
  match s.stop with
  | some reason => .error reason
  | none => if s.canceled then .error .canceled else .ok (s.outcomes plan)

/-- The schedule in which each job ends, and can be seen to have ended the batch, before the next one is
looked at. -/
def sequential (jobs : Nat) : List Event :=
  (List.range jobs).flatMap fun i => [.check, .launch, .start i, .finish i, .signal]

/-- **A batch under the sequential schedule**, which may have been canceled before it begins. -/
def analyze (plan : Plan) (canceled : Bool) : Except Stop Outcomes :=
  let before := if canceled then [Event.cancel, .signal] else []
  (run plan .initial (before ++ sequential plan.jobs.size)).result plan

end Batch

end StackMap
