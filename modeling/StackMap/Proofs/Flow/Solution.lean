import StackMap.Proofs.Flow.Replay
import StackMap.Proofs.Frame.Monotone

/-!
# `Proofs.Flow.Solution`: the frames solve the inequations of the control flow

The frames of a method have to satisfy an inequation for each edge of its control flow: what an edge
carries is below the frame at its end. The analysis reaches such frames because of what it keeps at every
step: each position that has a frame and is not queued has sent all its packets with that frame, and each
packet has been absorbed or is still under way.

## Contents

* `Inequations`, `Solution`: assignments of frames that satisfy the inequations, and those that are frames
  of the method.
* `Settled`: what every step keeps.
* `solution_of_analyze`, `Solution.of_analyze`, `analyze_solves`: the frames of a method are a solution.
-/

namespace StackMap

/-- **A frame has absorbed another one**: the two have one shape, and merging the other one into it leaves
it as it is. -/
structure Frame.Absorbs (h f : Frame) : Prop where
  height : h.stack.length = f.stack.length
  count : h.locals.size = f.locals.size
  merge : h.merge f = .ok h

theorem Frame.Below.absorbs {f h : Frame} (hbelow : f.Below h) : h.Absorbs f :=
  ⟨hbelow.height.symm, hbelow.count.symm, merge_eq_self_iff.mpr hbelow⟩

namespace Flow

/-! ## What exceptions carry -/

theorem peer_handlerFrame (f : Frame) (h : Handler) : f.Peer (handlerFrame f h) := ⟨rfl, rfl, rfl⟩

theorem filled_handlerFrame {f : Frame} (hf : f.Filled) (h : Handler) : (handlerFrame f h).Filled :=
  ⟨hf.locals, List.forall_mem_singleton.mpr rfl⟩

/-- Handlers find frames in the order of those that were left. -/
theorem handlerFrame_below {f f' : Frame} (hbelow : f.Below f') (h : Handler) :
    (handlerFrame f h).Below (handlerFrame f' h) :=
  ⟨hbelow.locals, forall₂_below_refl _⟩

/-! ## Solutions -/

/-- **The inequations of the control flow**: some positions have frames, the first one among them, and each
instruction there runs on its frame, and everything that leaves it arrives at a position with a frame
above. -/
structure Inequations (g : Graph) (entry : Frame) (frames : Nat → Option Frame) : Prop where
  start : ∃ h, frames 0 = some h ∧ entry.Below h
  insn : ∀ i f, frames i = some f → ∃ insn after, g.method.insns[i]? = some insn ∧
    f.execute insn = .ok after ∧
    (∀ t ∈ g.targets i insn, ∃ j h, t = .ok j ∧ frames j = some h ∧ after.Below h) ∧
    (∀ handler ∈ g.handlersAt i, ∃ h, frames handler.index = some h ∧
      (handlerFrame f handler).Below h)

/-- **A solution of the inequations** by frames of the method: all of them have the bound on the stack and the
returned value of the first frame. This is a condition of its own. Instructions look at both, but `Below`
compares only slots. -/
structure Solution (g : Graph) (entry : Frame) (frames : Nat → Option Frame) : Prop
    extends Inequations g entry frames where
  bound : ∀ i f, frames i = some f → f.maxStack = entry.maxStack
  result : ∀ i f, frames i = some f → f.result = entry.result

/-- **The inequations say nothing about the bound on the stack and the returned value.** -/
theorem Inequations.of_bound_and_result {g : Graph} {entry : Frame} {frames : Nat → Option Frame}
    (h : Inequations g entry frames) (maxStack : Int) (desc : String) (bound : Nat) (result : Slot) :
    Inequations { g with method := { g.method with maxStack, desc } }
      { entry with maxStack := bound, result } frames where
  start := by
    obtain ⟨first, hfirst, hbelow⟩ := h.start
    exact ⟨first, hfirst, hbelow.locals, hbelow.stack⟩
  insn := h.insn

/-- A frame of the method that is below one of the solution has as many local variables as that one. -/
theorem Solution.peer {g : Graph} {entry f h : Frame} {frames : Nat → Option Frame} {i : Nat}
    (hsol : Solution g entry frames) (hh : frames i = some h) (hpeer : entry.Peer f)
    (hbelow : f.Below h) : f.Peer h where
  locals := hbelow.count
  maxStack := hpeer.maxStack.symm.trans (hsol.bound i h hh).symm
  result := hpeer.result.symm.trans (hsol.result i h hh).symm

/-- A packet has arrived: there is a frame above the one that it carries. -/
def Absorbed (frames : Nat → Option Frame) (p : Packet) : Prop :=
  ∃ j f h, p = .ok (j, f) ∧ frames j = some h ∧ f.Below h

/-- What it means that all packets of a visit have arrived. -/
theorem forall_absorbed_iff {g : Graph} {i : Nat} {insn : Insn} {f : Frame}
    {frames : Nat → Option Frame} :
    (∀ p ∈ outgoing g i insn f, Absorbed frames p) ↔
      ∃ after, f.execute insn = .ok after ∧
        (∀ t ∈ g.targets i insn, ∃ j h, t = .ok j ∧ frames j = some h ∧ after.Below h) ∧
        (∀ handler ∈ g.handlersAt i, ∃ h, frames handler.index = some h ∧
          (handlerFrame f handler).Below h) := by
  unfold outgoing
  cases hexec : f.execute insn with
  | error halt =>
    constructor
    · intro h
      obtain ⟨j, f', h', hp, _⟩ := h (.error halt) (List.mem_singleton_self _)
      exact nomatch hp
    · rintro ⟨after, hafter, _⟩
      exact nomatch hafter
  | ok after =>
    simp only [List.mem_append, List.mem_map, or_imp, forall_and, forall_exists_index, and_imp,
      forall_apply_eq_imp_iff₂]
    constructor
    · rintro ⟨htargets, hhandlers⟩
      refine ⟨after, rfl, fun t ht => ?_, fun handler hh => ?_⟩
      · obtain ⟨j, f', h, hp, hj, hbelow⟩ := htargets t ht
        cases t with
        | error l => exact nomatch hp
        | ok k =>
          cases hp
          exact ⟨j, h, rfl, hj, hbelow⟩
      · obtain ⟨j, f', h, hp, hj, hbelow⟩ := hhandlers handler hh
        cases hp
        exact ⟨h, hj, hbelow⟩
    · rintro ⟨after', hafter, htargets, hhandlers⟩
      cases hafter
      refine ⟨fun t ht => ?_, fun handler hh => ?_⟩
      · obtain ⟨j, h, rfl, hj, hbelow⟩ := htargets t ht
        exact ⟨j, after, h, rfl, hj, hbelow⟩
      · obtain ⟨h, hj, hbelow⟩ := hhandlers handler hh
        exact ⟨handler.index, _, h, rfl, hj, hbelow⟩

/-- The frames of an array by position. -/
def framesAt (frames : Array (Option Frame)) (i : Nat) : Option Frame := frames[i]?.join

theorem framesAt_eq_some_iff {frames : Array (Option Frame)} {i : Nat} {f : Frame} :
    framesAt frames i = some f ↔ frames[i]? = some (some f) := by
  rw [framesAt, Option.join_eq_some_iff]

/-! ## What every step keeps -/

variable {g : Graph} {entry : Frame} {c c' : Config} {visits : List Nat} {popped : Option Nat}

/-- **What has been visited is settled**: the first frame has arrived, and so has every packet of a
position that is not queued, unless it is still under way. -/
structure Settled (g : Graph) (entry : Frame) (c : Config) : Prop where
  start : ∃ h, c.state.frames[0]? = some (some h) ∧ entry.Below h
  visited : ∀ i f insn, c.state.frames[i]? = some (some f) → g.method.insns[i]? = some insn →
    i ∉ c.state.queue.toList →
    ∀ p ∈ outgoing g i insn f, Absorbed (framesAt c.state.frames) p ∨ p ∈ c.pending

/-- What has arrived stays so: frames only go up. -/
theorem Absorbed.delivers {s s' : State} {j : Nat} {f : Frame} {p : Packet}
    (hd : s.Delivers j f s') (h : Absorbed (framesAt s.frames) p) :
    Absorbed (framesAt s'.frames) p := by
  obtain ⟨k, f', old, rfl, hold, hbelow⟩ := h
  obtain ⟨new, hnew, hle⟩ := hd.grows (framesAt_eq_some_iff.mp hold)
  exact ⟨k, f', new, rfl, framesAt_eq_some_iff.mpr hnew, hbelow.trans hle⟩

theorem Step.settled (h : Step g c popped c') (hwf : c.state.WellFormed g)
    (hc : Settled g entry c) : Settled g entry c' := by
  cases h with
  | @pop k i s queue insn before hpop hi hf =>
    refine ⟨hc.start, fun i' f insn' hf' hi' hnot p hp => ?_⟩
    by_cases hii : i' = i
    · -- The packets of the position that is visited are all under way.
      subst hii
      cases hf.symm.trans hf'
      cases hi.symm.trans hi'
      exact Or.inr hp
    · -- No packet of another position is: there was none before.
      have hnot' : i' ∉ s.queue.toList := by
        rw [Worklist.toList_pop? hpop, List.mem_cons, not_or]
        exact ⟨hii, hnot⟩
      rcases hc.visited i' f insn' hf' hi' hnot' p hp with habs | hpend
      · exact Or.inl habs
      · exact absurd hpend List.not_mem_nil
  | @deliver k j s s' f rest hd =>
    constructor
    · obtain ⟨old, hold, hbelow⟩ := hc.start
      obtain ⟨new, hnew, hle⟩ := hd.grows hold
      exact ⟨new, hnew, hbelow.trans hle⟩
    · intro i new insn hnew hi hnot p hp
      -- A frame that is not queued afterwards is the one that was there before.
      have hnot' : i ∉ s.queue.toList := fun hmem => hnot (hd.mem_queue hwf.valid hmem)
      have hold : s.frames[i]? = some (some new) := hd.unchanged hwf.valid hnew hnot
      rcases hc.visited i new insn hold hi hnot' p hp with habs | hpend
      · exact Or.inl (habs.delivers hd)
      · rcases List.mem_cons.mp hpend with rfl | hpend
        · obtain ⟨h, hh, hbelow⟩ := hd.arrived
          exact Or.inl ⟨j, f, h, rfl, framesAt_eq_some_iff.mpr hh, hbelow⟩
        · exact Or.inr hpend

theorem Steps.settled (h : Steps g c visits c') (hwf : c.state.WellFormed g)
    (hc : Settled g entry c) : Settled g entry c' := by
  refine (h.keeps (P := fun c => c.state.WellFormed g ∧ Settled g entry c) ?_ ⟨hwf, hc⟩).2
  rintro c popped c' hstep ⟨hwf, hc⟩
  exact ⟨hstep.wellFormed hwf, hstep.settled hwf hc⟩

theorem settled_start {m : Method} (hcode : m.hasCode) :
    Settled g entry ⟨0, [], State.start m.insns.size entry⟩ := by
  have hframes : ∀ i f, (State.start m.insns.size entry).frames[i]? = some (some f) ↔
      i = 0 ∧ f = entry := State.frames_start (m.size_pos_of_hasCode hcode)
  refine ⟨⟨entry, (hframes 0 entry).mpr ⟨rfl, rfl⟩, Frame.Below.refl entry⟩, ?_⟩
  intro i f insn hf _ hnot
  refine absurd ?_ hnot
  rw [State.queue_start, ((hframes i f).mp hf).1]
  exact List.mem_singleton_self 0

/-! ## The frames of a method -/

/-- Visits send frames of the same method. -/
theorem peer_of_outgoing {i j : Nat} {insn : Insn} {f f' : Frame}
    (h : .ok (j, f') ∈ outgoing g i insn f) : f.Peer f' := by
  obtain ⟨after, hexec, ⟨-, rfl⟩ | ⟨handler, -, -, rfl⟩⟩ := mem_outgoing_iff.mp h
  · exact (Frame.execute_eq_ok_iff.mp hexec).peer
  · exact peer_handlerFrame f handler

/-- **The frames of a method are a solution.** -/
theorem solution_of_analyze {owner : String} {m : Method} {frames : Array (Option Frame)}
    (hcode : m.hasCode) (h : analyze owner m = .ok frames) :
    ∃ g entry, Graph.ofMethod m = .ok g ∧ entryFrame owner m = .ok entry ∧
      frames.size = m.insns.size ∧ Solution g entry (framesAt frames) := by
  obtain ⟨g, entry, visits, k, s, hg, hentry, hsteps, hqueue, rfl⟩ := exists_steps_of_analyze hcode h
  have hwf₀ : (State.start m.insns.size entry).WellFormed g := wellFormed_start hcode hg
  have hwf := hsteps.wellFormed hwf₀
  have hsettled := hsteps.settled hwf₀ (settled_start hcode)
  have hpeer := hsteps.all (P := fun _ f => entry.Peer f)
    (fun _ _ _ _ _ _ hf hp => hf.trans (peer_of_outgoing hp))
    (fun _ _ _ _ hold _ hm => hold.trans (Frame.peer_of_merge hm))
    (all_start hcode (Frame.Peer.refl entry))
  have hframes : ∀ i f, framesAt s.frames i = some f → entry.Peer f :=
    fun i f hf => hpeer.frames i f (framesAt_eq_some_iff.mp hf)
  refine ⟨g, entry, hg, hentry, ?_, ⟨?_, ?_⟩, fun i f hf => (hframes i f hf).maxStack.symm,
    fun i f hf => (hframes i f hf).result.symm⟩
  · rw [← Graph.method_of_ofMethod hg]
    exact hwf.size
  · obtain ⟨h, hh, hbelow⟩ := hsettled.start
    exact ⟨h, framesAt_eq_some_iff.mpr hh, hbelow⟩
  · intro i f hf
    rw [framesAt_eq_some_iff] at hf
    obtain ⟨insn, hi⟩ := hwf.exists_insn hf
    -- At the end nothing is queued and nothing is under way.
    have hnot : i ∉ s.queue.toList := by
      rw [hqueue]
      exact List.not_mem_nil
    have habsorbed : ∀ p ∈ outgoing g i insn f, Absorbed (framesAt s.frames) p :=
      fun p hp => (hsettled.visited i f insn hf hi hnot p hp).resolve_right List.not_mem_nil
    obtain ⟨after, hexec, hrest⟩ := forall_absorbed_iff.mp habsorbed
    exact ⟨insn, after, hi, hexec, hrest⟩

/-- The same for the graph and the first frame at hand. -/
theorem Solution.of_analyze {owner : String} {m : Method} {frames : Array (Option Frame)}
    (hcode : m.hasCode) (h : analyze owner m = .ok frames) (hg : Graph.ofMethod m = .ok g)
    (hentry : entryFrame owner m = .ok entry) : Solution g entry (framesAt frames) := by
  obtain ⟨g', entry', hg', hentry', -, hsol⟩ := solution_of_analyze hcode h
  cases hg.symm.trans hg'
  cases hentry.symm.trans hentry'
  exact hsol

/-- **The frames of a method satisfy the inequations.** Every instruction that has a frame runs on it,
every edge leads to an instruction with a frame, and that frame has absorbed what the edge carries. -/
theorem analyze_solves {owner : String} {m : Method} {frames : Array (Option Frame)}
    (hcode : m.hasCode) (h : analyze owner m = .ok frames) :
    ∃ g entry, Graph.ofMethod m = .ok g ∧ entryFrame owner m = .ok entry ∧
      frames.size = m.insns.size ∧
      (∃ first, frames[0]? = some (some first) ∧ first.Absorbs entry) ∧
      ∀ i f, frames[i]? = some (some f) →
        ∃ insn after, m.insns[i]? = some insn ∧ f.execute insn = .ok after ∧
          (∀ t ∈ g.targets i insn, ∃ j next, t = .ok j ∧ j < m.insns.size ∧
            frames[j]? = some (some next) ∧ next.Absorbs after) ∧
          (∀ handler ∈ g.handlersAt i, handler.index < m.insns.size ∧
            ∃ next, frames[handler.index]? = some (some next) ∧
              next.Absorbs (handlerFrame f handler)) := by
  obtain ⟨g, entry, hg, hentry, hsize, hsol⟩ := solution_of_analyze hcode h
  have hinside : ∀ j next, frames[j]? = some (some next) → j < m.insns.size := by
    intro j next hj
    rw [← hsize]
    exact (Array.getElem?_eq_some_iff.mp hj).1
  refine ⟨g, entry, hg, hentry, hsize, ?_, ?_⟩
  · obtain ⟨first, hfirst, hbelow⟩ := hsol.start
    exact ⟨first, framesAt_eq_some_iff.mp hfirst, hbelow.absorbs⟩
  · intro i f hf
    obtain ⟨insn, after, hi, hexec, htargets, hhandlers⟩ :=
      hsol.insn i f (framesAt_eq_some_iff.mpr hf)
    rw [Graph.method_of_ofMethod hg] at hi
    refine ⟨insn, after, hi, hexec, fun t ht => ?_, fun handler hh => ?_⟩
    · obtain ⟨j, next, rfl, hnext, hbelow⟩ := htargets t ht
      rw [framesAt_eq_some_iff] at hnext
      exact ⟨j, next, rfl, hinside j next hnext, hnext, hbelow.absorbs⟩
    · obtain ⟨next, hnext, hbelow⟩ := hhandlers handler hh
      rw [framesAt_eq_some_iff] at hnext
      exact ⟨hinside _ next hnext, next, hnext, hbelow.absorbs⟩

/-- The jump back from the handler carries a value that the frame at the loop has lost. -/
theorem analyze_solves_countdown :
    analyze "C" Countdown.method = .ok Countdown.frames ∧
      ∃ g, Graph.ofMethod Countdown.method = .ok g ∧
        ∃ insn after, Countdown.method.insns[9]? = some insn ∧
          (Countdown.frame Countdown.throwable []).execute insn = .ok after ∧
          ∀ t ∈ g.targets 9 insn, ∃ j next, t = .ok j ∧ j < Countdown.method.insns.size ∧
            Countdown.frames[j]? = some (some next) ∧ next.Absorbs after := by
  obtain ⟨g, entry, hg, -, -, -, hedges⟩ := analyze_solves rfl Countdown.analyze_eq
  obtain ⟨insn, after, hi, hexec, htargets, -⟩ :=
    hedges 9 (Countdown.frame Countdown.throwable []) rfl
  exact ⟨Countdown.analyze_eq, g, hg, insn, after, hi, hexec, htargets⟩

end Flow

end StackMap
