import StackMap.Proofs.Flow.Step

/-!
# `Proofs.Flow.Replay`: runs that can be evaluated

The loop of the analysis recurs on a measure, and its queue keeps a hash set. `replay` is the same loop
over a list and with a bound on the number of visits, so that it evaluates by reduction. What it gives
is what the loop gives.

## Contents

* `Plain`: the state of the analysis with a list for its queue.
* `replay`, `advance`: visits until none is due, up to a bound, and a number of visits.
* `run_of_visit`, `run_of_halt`: a visit of the loop.
* `analyze_of_replay`: the outcome of a replay is that of the analysis.
* `analyze_of_advance`: an instruction that halts after some visits halts the analysis.
-/

namespace StackMap

/-! ## States with a list for the queue -/

/-- **The state of the analysis, plainly**: the frames, and the positions to visit. -/
structure Plain where
  frames : Array (Option Frame)
  queue : List Nat
  deriving DecidableEq

namespace Plain

/-- The plain state in which only the first instruction has been reached. -/
def start (size : Nat) (entry : Frame) : Plain :=
  ⟨(Array.replicate size none).setIfInBounds 0 (some entry), [0]⟩

/-- A frame is put at a position, which is queued unless it is already. -/
def store (s : Plain) (j : Nat) (f : Frame) : Plain :=
  ⟨s.frames.setIfInBounds j (some f), if j ∈ s.queue then s.queue else s.queue ++ [j]⟩

/-- A frame arrives at a position. -/
def deliver (s : Plain) (j : Nat) (f : Frame) : Option Plain :=
  match s.frames[j]? with
  | none => none
  | some none => some (s.store j f)
  | some (some old) =>
    match old.merge f with
    | .error _ => none
    | .ok new => if new = old then some s else some (s.store j new)

/-- Packets are delivered in turn. -/
def deliverEach : List Flow.Packet → Plain → Option Plain
  | [], s => some s
  | .error _ :: _, _ => none
  | .ok (j, f) :: rest, s => (s.deliver j f).bind (deliverEach rest)

/-- **Visits until none is due**, at most as many as the first argument says. -/
def replay (g : Graph) : Nat → Plain → Option (Array (Option Frame))
  | 0, _ => none
  | _ + 1, ⟨frames, []⟩ => some frames
  | n + 1, ⟨frames, i :: queue⟩ =>
    match g.method.insns[i]?, frames[i]? with
    | some insn, some (some before) =>
      (deliverEach (Flow.outgoing g i insn before) ⟨frames, queue⟩).bind (replay g n)
    | _, _ => none

/-- **A number of visits**, all of which have to be due. -/
def advance (g : Graph) : Nat → Plain → Option Plain
  | 0, s => some s
  | _ + 1, ⟨_, []⟩ => none
  | n + 1, ⟨frames, i :: queue⟩ =>
    match g.method.insns[i]?, frames[i]? with
    | some insn, some (some before) =>
      (deliverEach (Flow.outgoing g i insn before) ⟨frames, queue⟩).bind (advance g n)
    | _, _ => none

end Plain

/-- The plain form of a state. -/
def State.plain (s : State) : Plain := ⟨s.frames, s.queue.toList⟩

/-! ## Replays and runs -/

namespace State

variable {s : State} {j : Nat} {f : Frame} {t : Plain}

theorem plain_start (size : Nat) (entry : Frame) :
    (start size entry).plain = Plain.start size entry := by
  rw [plain, queue_start]
  rfl

theorem plain_store (hq : s.queue.Valid) :
    plain ⟨s.frames.setIfInBounds j (some f), s.queue.push j⟩ = s.plain.store j f := by
  unfold plain Plain.store
  by_cases hj : j ∈ s.queue.toList
  · rw [Worklist.push_of_mem hq hj, if_pos hj]
  · rw [Worklist.toList_push_of_not_mem hq hj, if_neg hj]

theorem delivers_of_plain (hq : s.queue.Valid) (h : s.plain.deliver j f = some t) :
    ∃ s', s.Delivers j f s' ∧ s'.plain = t := by
  unfold Plain.deliver at h
  split at h
  · exact nomatch h
  · rename_i hnone
    cases h
    exact ⟨_, .first hnone, plain_store hq⟩
  · rename_i old hold
    split at h
    · exact nomatch h
    · rename_i new hmerge
      split at h
      · rename_i hnew
        cases h
        rw [hnew] at hmerge
        exact ⟨s, .absorbed hold (Frame.merge_eq_self_iff.mp hmerge), rfl⟩
      · rename_i hnew
        cases h
        exact ⟨_, .joined hold hmerge hnew, plain_store hq⟩

end State

namespace Flow

variable {g : Graph}

theorem deliverEach_of_plain {pending : List Packet} {s : State} {t : Plain} (hs : s.WellFormed g)
    (h : Plain.deliverEach pending s.plain = some t) :
    ∃ s', deliverEach pending s = .ok s' ∧ s'.WellFormed g ∧ s'.plain = t := by
  induction pending generalizing s with
  | nil =>
    cases h
    exact ⟨s, rfl, hs, rfl⟩
  | cons p rest ih =>
    rcases p with halt | ⟨j, f⟩
    · exact nomatch h
    · obtain ⟨mid, hmid, h⟩ := Option.bind_eq_some_iff.mp h
      obtain ⟨s', hd, rfl⟩ := State.delivers_of_plain hs.valid hmid
      obtain ⟨s'', hrest, hwf, hplain⟩ := ih (hd.wellFormed hs) h
      refine ⟨s'', ?_, hwf, hplain⟩
      unfold deliverEach
      rw [State.deliver_eq_ok_iff.mpr hd]
      exact hrest

/-- **A visit in plain form is one of the loop**: both take the same position off their queues. -/
theorem run_of_visit {s : State} {i : Nat} {queue : List Nat} {insn : Insn} {before : Frame} {t : Plain}
    (hs : s.WellFormed g) (hq : s.queue.toList = i :: queue) (hi : g.method.insns[i]? = some insn)
    (hf : s.frames[i]? = some (some before))
    (h : Plain.deliverEach (outgoing g i insn before) ⟨s.frames, queue⟩ = some t) :
    ∃ s', run g s = run g s' ∧ s'.WellFormed g ∧ s'.plain = t := by
  obtain ⟨w, hpop, hw⟩ := Worklist.pop?_of_toList_eq_cons hq
  rw [← hw] at h
  obtain ⟨s', hdeliver, hwf, hplain⟩ := deliverEach_of_plain (hs.pop hpop) h
  refine ⟨s', ?_, hwf, hplain⟩
  rw [run_of_pop?_some hpop, visitQueued_eq (s := { s with queue := w }) hi hf, hdeliver]

/-- **A visit that halts ends the run.** -/
theorem run_of_halt {s : State} {i : Nat} {queue : List Nat} {insn : Insn} {before : Frame}
    {halt : Halt Cause} (hq : s.queue.toList = i :: queue) (hi : g.method.insns[i]? = some insn)
    (hf : s.frames[i]? = some (some before))
    (h : ∀ w, deliverEach (outgoing g i insn before) ⟨s.frames, w⟩ = .error halt) :
    run g s = .error (haltAt i insn halt) := by
  obtain ⟨w, hpop, -⟩ := Worklist.pop?_of_toList_eq_cons hq
  rw [run_of_pop?_some hpop, visitQueued_eq (s := { s with queue := w }) hi hf, h w]

theorem run_of_replay {n : Nat} {s : State} {frames : Array (Option Frame)} (hs : s.WellFormed g)
    (h : Plain.replay g n s.plain = some frames) : run g s = .ok frames := by
  induction n generalizing s with
  | zero => exact nomatch h
  | succ n ih =>
    unfold State.plain at h
    cases hq : s.queue.toList with
    | nil =>
      rw [hq] at h
      cases h
      exact run_of_pop?_none (Worklist.pop?_eq_none_iff.mpr hq)
    | cons i queue =>
      rw [hq] at h
      unfold Plain.replay at h
      split at h
      · rename_i insn before hi hf
        obtain ⟨t, ht, h⟩ := Option.bind_eq_some_iff.mp h
        obtain ⟨s', hrun, hwf, rfl⟩ := run_of_visit hs hq hi hf ht
        rw [hrun]
        exact ih hwf h
      · exact nomatch h

theorem run_of_advance {n : Nat} {s : State} {t : Plain} (hs : s.WellFormed g)
    (h : Plain.advance g n s.plain = some t) :
    ∃ s', run g s = run g s' ∧ s'.WellFormed g ∧ s'.plain = t := by
  induction n generalizing s with
  | zero =>
    cases h
    exact ⟨s, rfl, hs, rfl⟩
  | succ n ih =>
    unfold State.plain at h
    cases hq : s.queue.toList with
    | nil =>
      rw [hq] at h
      exact nomatch h
    | cons i queue =>
      rw [hq] at h
      unfold Plain.advance at h
      split at h
      · rename_i insn before hi hf
        obtain ⟨t, ht, h⟩ := Option.bind_eq_some_iff.mp h
        obtain ⟨s', hrun, hwf, rfl⟩ := run_of_visit hs hq hi hf ht
        rw [hrun]
        exact ih hwf h
      · exact nomatch h

/-- **The outcome of a replay is that of the analysis.** -/
theorem analyze_of_replay {owner : String} {m : Method} {entry : Frame}
    {frames : Array (Option Frame)} (n : Nat) (hcode : m.hasCode) (hg : Graph.ofMethod m = .ok g)
    (hentry : entryFrame owner m = .ok entry)
    (h : Plain.replay g n (Plain.start m.insns.size entry) = some frames) :
    analyze owner m = .ok frames := by
  rw [analyze_eq_run hcode hg hentry]
  rw [← State.plain_start] at h
  exact run_of_replay (wellFormed_start hcode hg) h

/-- **An instruction that halts after some visits halts the analysis.** -/
theorem analyze_of_advance {owner : String} {m : Method} {entry before : Frame}
    {frames : Array (Option Frame)} {i : Nat} {queue : List Nat} {insn : Insn} {halt : Halt Cause}
    (n : Nat) (hcode : m.hasCode) (hg : Graph.ofMethod m = .ok g)
    (hentry : entryFrame owner m = .ok entry)
    (h : Plain.advance g n (Plain.start m.insns.size entry) = some ⟨frames, i :: queue⟩)
    (hi : g.method.insns[i]? = some insn) (hf : frames[i]? = some (some before))
    (hexec : before.execute insn = .error halt) :
    analyze owner m = .error (haltAt i insn halt) := by
  rw [analyze_eq_run hcode hg hentry]
  rw [← State.plain_start] at h
  obtain ⟨s, hrun, -, hplain⟩ := run_of_advance (wellFormed_start hcode hg) h
  obtain ⟨rfl, hq⟩ : s.frames = frames ∧ s.queue.toList = i :: queue := by
    simpa only [State.plain, Plain.mk.injEq] using hplain
  rw [hrun]
  refine run_of_halt hq hi hf fun w => ?_
  unfold outgoing
  rw [hexec]
  rfl

end Flow

/-! ## A method with a loop

The handler covers the loop and itself, and comes back to the loop with another value in the second
variable. -/

namespace Countdown

def method : Method where
  access := 8
  name := "countdown"
  desc := "(I)V"
  maxStack := 1
  maxLocals := 2
  insns := #[.plain ⟨0x03⟩, .var .istore 1, .label ⟨"loop", 0⟩, .var .iload 0,
    .jump ⟨0x99⟩ ⟨"end", 0⟩, .iinc 0 (-1), .jump .goto ⟨"loop", 0⟩, .label ⟨"caught", 0⟩,
    .var .astore 1, .jump .goto ⟨"loop", 0⟩, .label ⟨"end", 0⟩, .plain ⟨0xb1⟩]
  tryCatch := [⟨⟨"loop", 0⟩, ⟨"end", 0⟩, ⟨"caught", 0⟩, ""⟩]

def throwable : Value := .object "Ljava/lang/Throwable;"

def graph : Graph := ⟨method, [⟨2, 10, ⟨7, throwable⟩⟩], []⟩

/-- A frame of the method: the parameter stays what it is. -/
def frame (second : Value) (stack : List Slot) : Frame := ⟨#[some .int, some second], stack, 1, none⟩

def entry : Frame := frame .uninit []

def frames : Array (Option Frame) :=
  #[some entry, some (frame .uninit [some .int]), some entry, some entry,
    some (frame .uninit [some .int]), some entry, some entry, some (frame .uninit [some throwable]),
    some (frame .uninit [some throwable]), some (frame throwable []), some entry, some entry]

theorem ofMethod_eq : Graph.ofMethod method = .ok graph := rfl

theorem entryFrame_eq : Flow.entryFrame "C" method = .ok entry :=
  eq_ok_of_toOption (by decide +kernel)

theorem analyze_eq : analyze "C" method = .ok frames :=
  Flow.analyze_of_replay 40 rfl ofMethod_eq entryFrame_eq (by decide +kernel)

end Countdown

end StackMap
