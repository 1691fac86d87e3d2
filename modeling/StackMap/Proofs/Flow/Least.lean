import StackMap.Proofs.Flow.Solution

/-!
# `Proofs.Flow.Least`: the frames are below every solution

If the inequations of the control flow have a solution by frames of the method that knows every entry of its
stacks, then the analysis succeeds, and its frames are below that solution. No frame that the analysis ever
holds exceeds the solution: on a frame below it with the same stack an instruction runs as well, and gives
less. Frames with another bound on the stack or another returned value do not show that it succeeds.

## Contents

* `Fits`: a frame is below the one that a solution has.
* `fits_of_outgoing`, `Step.fitting`: what every step keeps.
* `analyze_least`: the analysis succeeds, with frames below the solution.
* `Overflow`, `OtherType`, `inequations_not_enough`: solutions by frames of other methods.
-/

namespace StackMap

/-- A list has only itself below it if it says something everywhere. -/
theorem eq_of_forall₂_below {l l' : List Slot} (h : List.Forall₂ Slot.Below l l')
    (hl : some .uninit ∉ l') : l = l' := by
  induction h with
  | nil => rfl
  | cons hab _ ih =>
    rw [List.mem_cons, not_or] at hl
    rw [hab.eq_of_ne (Ne.symm hl.1), ih hl.2]

namespace Flow

/-! ## Frames below a solution -/

/-- **A frame fits an assignment**: it is a filled frame of the method, and below the one assigned. -/
structure Fits (entry : Frame) (frames : Nat → Option Frame) (i : Nat) (f : Frame) : Prop where
  filled : f.Filled
  peer : entry.Peer f
  below : ∃ h, frames i = some h ∧ f.Below h

/-- Every entry of the assigned stacks says something. -/
def KnownStacks (frames : Nat → Option Frame) : Prop :=
  ∀ i h, frames i = some h → some .uninit ∉ h.stack

theorem knownStacks_framesAt {frames : Array (Option Frame)}
    (h : ∀ slot ∈ frames, ∀ f ∈ slot, some .uninit ∉ f.stack) : KnownStacks (framesAt frames) := by
  intro i f hf
  exact h _ (Array.mem_of_getElem? (framesAt_eq_some_iff.mp hf)) f rfl

variable {g : Graph} {entry : Frame} {frames : Nat → Option Frame} {c c' : Config}
  {visits : List Nat} {popped : Option Nat}

/-- **What a visit to a fitting frame sends, arrives and fits.** -/
theorem fits_of_outgoing (hsol : Solution g entry frames) (hknown : KnownStacks frames) {i : Nat}
    {insn : Insn} {f : Frame} (hi : g.method.insns[i]? = some insn) (hf : Fits entry frames i f) :
    ∀ p ∈ outgoing g i insn f, ∃ j f', p = .ok (j, f') ∧ Fits entry frames j f' := by
  obtain ⟨h, hh, hbelow⟩ := hf.below
  obtain ⟨insn', above, hi', hexec, htargets, hhandlers⟩ := hsol.insn i h hh
  cases hi.symm.trans hi'
  -- The stack is that of the solution, so the instruction finds the same sizes on it.
  have hpeer : f.Peer h := hsol.peer hh hf.peer hbelow
  have hstack : f.stack = h.stack := eq_of_forall₂_below hbelow.stack (hknown i h hh)
  obtain ⟨after, hafter, hle⟩ :=
    Frame.execute_mono hexec hbelow hpeer hf.filled (.of_stack_eq hstack)
  have hruns := Frame.execute_eq_ok_iff.mp hafter
  intro p hp
  unfold outgoing at hp
  rw [hafter] at hp
  rcases List.mem_append.mp hp with hp | hp
  · obtain ⟨t, ht, rfl⟩ := List.mem_map.mp hp
    obtain ⟨j, next, rfl, hnext, hnextle⟩ := htargets t ht
    exact ⟨j, after, rfl, hruns.filled hf.filled, hf.peer.trans hruns.peer, next, hnext,
      hle.trans hnextle⟩
  · obtain ⟨handler, hhandler, rfl⟩ := List.mem_map.mp hp
    obtain ⟨next, hnext, hnextle⟩ := hhandlers handler hhandler
    exact ⟨handler.index, _, rfl, filled_handlerFrame hf.filled handler,
      hf.peer.trans (peer_handlerFrame f handler), next, hnext,
      (handlerFrame_below hbelow handler).trans hnextle⟩

/-- Frames that fit can be merged, and the result fits. -/
theorem Fits.merge {j : Nat} {old f new : Frame} (hold : Fits entry frames j old)
    (hf : Fits entry frames j f) (hm : old.merge f = .ok new) : Fits entry frames j new := by
  obtain ⟨h, hh, hbelow⟩ := hold.below
  obtain ⟨h', hh', hbelow'⟩ := hf.below
  cases hh.symm.trans hh'
  obtain ⟨new', hm', hle⟩ := Frame.merge_below hbelow hbelow'
  cases hm.symm.trans hm'
  exact ⟨hold.filled.of_below (Frame.below_of_merge hm).1, hold.peer.trans (Frame.peer_of_merge hm),
    h, hh, hle⟩

/-- A frame that fits is not refused where it arrives. -/
theorem delivers_of_fits {s : State} (hsol : Solution g entry frames) (hwf : s.WellFormed g)
    (hs : ∀ i f, s.frames[i]? = some (some f) → Fits entry frames i f) {j : Nat} {f : Frame}
    (hf : Fits entry frames j f) : ∃ s', s.deliver j f = .ok s' := by
  obtain ⟨h, hh, hbelow⟩ := hf.below
  obtain ⟨insn, -, hj, -⟩ := hsol.insn j h hh
  have hlt : j < s.frames.size := by
    rw [hwf.size]
    exact (Array.getElem?_eq_some_iff.mp hj).1
  rw [State.deliver_eq]
  cases hget : s.frames[j]? with
  | none => exact absurd hlt (Nat.not_lt.mpr (Array.getElem?_eq_none_iff.mp hget))
  | some slot =>
    cases slot with
    | none => exact ⟨_, rfl⟩
    | some old =>
      -- The frame there and the one that arrives are both below that of the solution.
      obtain ⟨h', hh', hbelow'⟩ := (hs j old hget).below
      cases hh.symm.trans hh'
      obtain ⟨new, hm, -⟩ := Frame.merge_below hbelow' hbelow
      simp only [hm]
      split
      · exact ⟨_, rfl⟩
      · exact ⟨_, rfl⟩

/-! ## What every step keeps -/

/-- **Nothing exceeds the solution**: all frames fit, and every packet under way carries one. -/
structure Fitting (entry : Frame) (frames : Nat → Option Frame) (c : Config) : Prop where
  all : c.All (Fits entry frames)
  carried : ∀ p ∈ c.pending, ∃ j f, p = .ok (j, f)

theorem Step.fitting (hsol : Solution g entry frames) (hknown : KnownStacks frames)
    (h : Step g c popped c') (hc : Fitting entry frames c) : Fitting entry frames c' := by
  refine ⟨h.all ?_ (fun j old f new hold hf hm => hold.merge hf hm) hc.all, ?_⟩
  · intro i insn f j f' hi hf hp
    obtain ⟨j', f'', hp', hfits⟩ := fits_of_outgoing hsol hknown hi hf _ hp
    cases hp'
    exact hfits
  · cases h with
    | @pop _ i _ _ insn before _ hi hf =>
      intro p hp
      obtain ⟨j, f, rfl, -⟩ := fits_of_outgoing hsol hknown hi (hc.all.frames i before hf) p hp
      exact ⟨j, f, rfl⟩
    | deliver _ => exact fun p hp => hc.carried p (List.mem_cons_of_mem _ hp)

theorem Steps.fitting (hsol : Solution g entry frames) (hknown : KnownStacks frames)
    (h : Steps g c visits c') (hc : Fitting entry frames c) : Fitting entry frames c' :=
  h.keeps (P := Fitting entry frames) (Step.fitting hsol hknown) hc

/-- A run below a solution can end only when nothing is left to do. -/
theorem Fitting.ends (hsol : Solution g entry frames) (hc : Fitting entry frames c)
    (hwf : c.state.WellFormed g) {outcome : Except (Halt AnalysisError) (Array (Option Frame))}
    (h : Ends g c outcome) : outcome = .ok c.state.frames := by
  cases h with
  | done _ => rfl
  | failed _ =>
    obtain ⟨j, f, hp⟩ := hc.carried _ List.mem_cons_self
    exact nomatch hp
  | refused _ hrefused =>
    obtain ⟨s', hd⟩ :=
      delivers_of_fits hsol hwf hc.all.frames (hc.all.pending _ _ List.mem_cons_self)
    exact nomatch hrefused.symm.trans hd

/-- **The analysis finds frames if there are any, and the least**: where there is a solution that knows all
entries of its stacks, the analysis succeeds, and each of its frames is below that of the solution, with
the same stack. -/
theorem analyze_least {owner : String} {m : Method} (hcode : m.hasCode)
    (hg : Graph.ofMethod m = .ok g) (hentry : entryFrame owner m = .ok entry)
    (hsol : Solution g entry frames) (hknown : KnownStacks frames) :
    ∃ found, analyze owner m = .ok found ∧ ∀ i f, found[i]? = some (some f) →
      ∃ h, frames i = some h ∧ f.Below h ∧ f.stack = h.stack := by
  obtain ⟨visits, c, hsteps, hends⟩ := exists_steps_analyze hcode hg hentry
  have hstart : Fitting entry frames ⟨0, [], State.start m.insns.size entry⟩ :=
    ⟨all_start hcode ⟨filled_entryFrame hentry, Frame.Peer.refl entry, hsol.start⟩,
      fun p hp => absurd hp List.not_mem_nil⟩
  have hfit := hsteps.fitting hsol hknown hstart
  refine ⟨c.state.frames, ?_, fun i f hf => ?_⟩
  · exact hfit.ends hsol (hsteps.wellFormed (wellFormed_start hcode hg)) hends
  · obtain ⟨h, hh, hbelow⟩ := (hfit.all.frames i f hf).below
    exact ⟨h, hh, hbelow, eq_of_forall₂_below hbelow.stack (hknown i h hh)⟩

/-- The frames of a method with a loop are such a solution themselves. -/
theorem analyze_least_countdown :
    Solution Countdown.graph Countdown.entry (framesAt Countdown.frames) ∧
      KnownStacks (framesAt Countdown.frames) ∧
      ∃ found, analyze "C" Countdown.method = .ok found ∧ ∀ i f, found[i]? = some (some f) →
        ∃ h, framesAt Countdown.frames i = some h ∧ f.Below h ∧ f.stack = h.stack := by
  have hsol : Solution Countdown.graph Countdown.entry (framesAt Countdown.frames) :=
    .of_analyze rfl Countdown.analyze_eq Countdown.ofMethod_eq Countdown.entryFrame_eq
  have hknown : KnownStacks (framesAt Countdown.frames) := knownStacks_framesAt (by decide)
  exact ⟨hsol, hknown,
    analyze_least rfl Countdown.ofMethod_eq Countdown.entryFrame_eq hsol hknown⟩

end Flow

/-! ## Frames of other methods

The inequations of a method are also solved by the frames of a method that has the same code, but no bound on
the stack, or another type. Such frames let instructions run that the method itself refuses. -/

namespace Overflow

def method : Method where
  access := 8
  name := "m"
  desc := "()V"
  maxStack := 1
  maxLocals := 0
  insns := #[.plain ⟨0x03⟩, .plain ⟨0x03⟩, .plain ⟨0x57⟩, .plain ⟨0x57⟩, .plain ⟨0xb1⟩]
  tryCatch := []

/-- The same code without a bound on the stack. -/
def unbounded : Method := { method with maxStack := 0 }

def graph : Graph := ⟨method, [], []⟩

def entry : Frame := ⟨#[], [], 1, none⟩

/-- A frame without a bound on the stack. -/
def frame (stack : List Slot) : Frame := ⟨#[], stack, 0, none⟩

def frames : Array (Option Frame) :=
  #[some (frame []), some (frame [some .int]), some (frame [some .int, some .int]),
    some (frame [some .int]), some (frame [])]

theorem entryFrame_eq : Flow.entryFrame "C" method = .ok entry :=
  eq_ok_of_toOption (by decide +kernel)

theorem entryFrame_unbounded : Flow.entryFrame "C" unbounded = .ok (frame []) :=
  eq_ok_of_toOption (by decide +kernel)

theorem analyze_unbounded : analyze "C" unbounded = .ok frames :=
  Flow.analyze_of_replay 6 rfl rfl entryFrame_unbounded (by decide +kernel)

theorem inequations : Flow.Inequations graph entry (Flow.framesAt frames) := by
  have hsol : Flow.Solution ⟨unbounded, [], []⟩ (frame []) (Flow.framesAt frames) :=
    .of_analyze rfl analyze_unbounded rfl entryFrame_unbounded
  exact hsol.of_bound_and_result 1 "()V" 1 none

theorem advance_eq : Plain.advance graph 1 (Plain.start 5 entry) =
    some ⟨#[some entry, some { entry with stack := [some .int] }, none, none, none], [1]⟩ := by
  decide +kernel

theorem analyze_eq :
    analyze "C" method = .error (.failed (.insn ⟨.plain ⟨0x03⟩, some 1, .stackOverflow⟩)) :=
  Flow.analyze_of_advance 1 rfl rfl entryFrame_eq advance_eq rfl rfl rfl

end Overflow

namespace OtherType

def method : Method where
  access := 8
  name := "m"
  desc := "()I"
  maxStack := 0
  maxLocals := 0
  insns := #[.plain ⟨0xb1⟩]
  tryCatch := []

/-- The same code in a method that returns nothing. -/
def void : Method := { method with desc := "()V" }

def graph : Graph := ⟨method, [], []⟩

/-- The only frame, for a method that returns the given value. -/
def frame (result : Slot) : Frame := ⟨#[], [], 0, result⟩

def frames : Array (Option Frame) := #[some (frame none)]

theorem entryFrame_eq : Flow.entryFrame "C" method = .ok (frame (some .int)) :=
  eq_ok_of_toOption (by decide +kernel)

theorem entryFrame_void : Flow.entryFrame "C" void = .ok (frame none) :=
  eq_ok_of_toOption (by decide +kernel)

theorem analyze_void : analyze "C" void = .ok frames :=
  Flow.analyze_of_replay 2 rfl rfl entryFrame_void (by decide +kernel)

theorem inequations : Flow.Inequations graph (frame (some .int)) (Flow.framesAt frames) := by
  have hsol : Flow.Solution ⟨void, [], []⟩ (frame none) (Flow.framesAt frames) :=
    .of_analyze rfl analyze_void rfl entryFrame_void
  exact hsol.of_bound_and_result 0 "()I" 0 (some .int)

theorem advance_eq : Plain.advance graph 0 (Plain.start 1 (frame (some .int))) =
    some ⟨#[some (frame (some .int))], [0]⟩ := by
  decide +kernel

theorem analyze_eq :
    analyze "C" method = .error (.failed (.insn ⟨.plain ⟨0xb1⟩, some 0, .incompatibleReturn⟩)) :=
  Flow.analyze_of_advance 0 rfl rfl entryFrame_eq advance_eq rfl rfl rfl

end OtherType

namespace Flow

/-- **Without the bound, and without the returned value, it fails**: two methods that are refused, although
the inequations of their control flow are solved by frames that know all entries of their stacks. -/
theorem inequations_not_enough :
    (Overflow.method.hasCode ∧ Graph.ofMethod Overflow.method = .ok Overflow.graph ∧
      entryFrame "C" Overflow.method = .ok Overflow.entry ∧
      Inequations Overflow.graph Overflow.entry (framesAt Overflow.frames) ∧
      KnownStacks (framesAt Overflow.frames) ∧
      ∀ found, analyze "C" Overflow.method ≠ .ok found) ∧
    (OtherType.method.hasCode ∧ Graph.ofMethod OtherType.method = .ok OtherType.graph ∧
      entryFrame "C" OtherType.method = .ok (OtherType.frame (some .int)) ∧
      Inequations OtherType.graph (OtherType.frame (some .int)) (framesAt OtherType.frames) ∧
      KnownStacks (framesAt OtherType.frames) ∧
      ∀ found, analyze "C" OtherType.method ≠ .ok found) := by
  refine ⟨⟨rfl, rfl, Overflow.entryFrame_eq, Overflow.inequations, ?_, fun found h => ?_⟩,
    rfl, rfl, OtherType.entryFrame_eq, OtherType.inequations, ?_, fun found h => ?_⟩
  · exact knownStacks_framesAt (by decide)
  · exact nomatch Overflow.analyze_eq.symm.trans h
  · exact knownStacks_framesAt (by decide)
  · exact nomatch OtherType.analyze_eq.symm.trans h

end Flow

end StackMap
