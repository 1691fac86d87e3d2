import StackMap.Proofs.Flow.Deliver

/-!
# `Proofs.Flow.Step`: the analysis step by step

The analysis as a machine has the packets that are under way beside its state. It takes a position off
the queue and forms the packets of the visit, or it delivers the next packet. A property of all frames
that the analysis ever holds is one that each of these two steps keeps.

## Contents

* `Config`, `Step`, `Steps`, `Ends`: the machine.
* `Config.All`, `Steps.all`: properties of all frames.
* `State.WellFormed`: what is queued has a frame.
* `exists_steps_run`: the loop is a run of the machine.
-/

namespace StackMap

namespace Flow

/-! ## The machine -/

/-- **A configuration of the analysis**: the position that is being visited, the packets of that visit
that are still to be delivered, and the state. -/
structure Config where
  site : Nat
  pending : List Packet
  state : State

/-- **A step of the analysis.** It takes a position off the queue, which it names, and forms the packets
of the visit; or it delivers the next packet. -/
inductive Step (g : Graph) : Config → Option Nat → Config → Prop where
  | pop {k i : Nat} {s : State} {queue : Worklist Nat} {insn : Insn} {before : Frame} :
      s.queue.pop? = some (i, queue) → g.method.insns[i]? = some insn →
      s.frames[i]? = some (some before) →
      Step g ⟨k, [], s⟩ (some i) ⟨i, outgoing g i insn before, { s with queue }⟩
  | deliver {i j : Nat} {s s' : State} {f : Frame} {rest : List Packet} :
      s.Delivers j f s' → Step g ⟨i, .ok (j, f) :: rest, s⟩ none ⟨i, rest, s'⟩

/-- **A run**, with the positions that it takes off the queue, in order. -/
inductive Steps (g : Graph) : Config → List Nat → Config → Prop where
  | refl {c : Config} : Steps g c [] c
  | tail {c c' c'' : Config} {visits : List Nat} {popped : Option Nat} :
      Steps g c visits c' → Step g c' popped c'' → Steps g c (visits ++ popped.toList) c''

/-- **How a run ends**, and with which outcome: nothing is left to do, a packet is a failure, or a frame
is refused where it arrives. -/
inductive Ends (g : Graph) : Config → Except (Halt AnalysisError) (Array (Option Frame)) → Prop where
  | done {k : Nat} {s : State} : s.queue.pop? = none → Ends g ⟨k, [], s⟩ (.ok s.frames)
  | failed {i : Nat} {s : State} {insn : Insn} {halt : Halt Cause} {rest : List Packet} :
      g.method.insns[i]? = some insn →
      Ends g ⟨i, .error halt :: rest, s⟩ (.error (haltAt i insn halt))
  | refused {i j : Nat} {s : State} {insn : Insn} {f : Frame} {halt : Halt Cause}
      {rest : List Packet} :
      g.method.insns[i]? = some insn → s.deliver j f = .error halt →
      Ends g ⟨i, .ok (j, f) :: rest, s⟩ (.error (haltAt i insn halt))

variable {g : Graph} {c c' c'' : Config} {visits visits' : List Nat} {popped : Option Nat}

/-- A run that ends with frames ends with those that it holds. -/
theorem Ends.frames_eq {frames : Array (Option Frame)} (h : Ends g c (.ok frames)) :
    c.state.frames = frames := by
  generalize houtcome : Except.ok frames = outcome at h
  cases h with
  | done _ =>
    cases houtcome
    rfl
  | failed _ => exact nomatch houtcome
  | refused _ _ => exact nomatch houtcome

theorem Steps.single (h : Step g c popped c') : Steps g c popped.toList c' := by
  have := Steps.tail Steps.refl h
  rwa [List.nil_append] at this

theorem Steps.trans (h : Steps g c visits c') (h' : Steps g c' visits' c'') :
    Steps g c (visits ++ visits') c'' := by
  induction h' with
  | refl => rwa [List.append_nil]
  | tail _ hstep ih =>
    rw [← List.append_assoc]
    exact ih.tail hstep

/-- **What each step keeps, a run keeps.** -/
theorem Steps.keeps {P : Config → Prop}
    (hstep : ∀ {c popped c'}, Step g c popped c' → P c → P c') (h : Steps g c visits c')
    (hc : P c) : P c' := by
  induction h with
  | refl => exact hc
  | tail _ hlast ih => exact hstep hlast ih

/-- **Frames only go up**, over a whole run. -/
theorem Steps.grows (h : Steps g c visits c') {i : Nat} {old : Frame}
    (hold : c.state.frames[i]? = some (some old)) :
    ∃ new, c'.state.frames[i]? = some (some new) ∧ old.Below new := by
  refine h.keeps (P := fun c => ∃ new, c.state.frames[i]? = some (some new) ∧ old.Below new) ?_
    ⟨old, hold, Frame.Below.refl old⟩
  rintro c popped c' hstep ⟨mid, hmid, hbelow⟩
  cases hstep with
  | pop _ _ _ => exact ⟨mid, hmid, hbelow⟩
  | deliver hd =>
    obtain ⟨new, hnew, hle⟩ := hd.grows hmid
    exact ⟨new, hnew, hbelow.trans hle⟩

end Flow

/-! ## Properties of all frames -/

namespace Flow

/-- All frames of a configuration, also those under way, have a property. -/
structure Config.All (P : Nat → Frame → Prop) (c : Config) : Prop where
  frames : ∀ i f, c.state.frames[i]? = some (some f) → P i f
  pending : ∀ j f, .ok (j, f) ∈ c.pending → P j f

variable {g : Graph} {P : Nat → Frame → Prop} {c c' : Config} {visits : List Nat}
  {popped : Option Nat}

/-- **What visits pass on and merges keep, a step keeps.** -/
theorem Step.all (h : Step g c popped c')
    (hsend : ∀ i insn f j f', g.method.insns[i]? = some insn → P i f →
      .ok (j, f') ∈ outgoing g i insn f → P j f')
    (hmerge : ∀ j old f new, P j old → P j f → old.merge f = .ok new → P j new)
    (hc : c.All P) : c'.All P := by
  cases h with
  | @pop _ i s _ insn before _ hi hf =>
    exact ⟨hc.frames, fun j f' hp => hsend i insn before j f' hi (hc.frames i before hf) hp⟩
  | @deliver _ j s s' f rest hd =>
    have hf : P j f := hc.pending j f List.mem_cons_self
    exact ⟨hd.forall_frames hf (fun old new hold hm => hmerge j old f new hold hf hm) hc.frames,
      fun k f' hp => hc.pending k f' (List.mem_cons_of_mem _ hp)⟩

/-- **What visits pass on and merges keep, a run keeps.** -/
theorem Steps.all (h : Steps g c visits c')
    (hsend : ∀ i insn f j f', g.method.insns[i]? = some insn → P i f →
      .ok (j, f') ∈ outgoing g i insn f → P j f')
    (hmerge : ∀ j old f new, P j old → P j f → old.merge f = .ok new → P j new)
    (hc : c.All P) : c'.All P :=
  h.keeps (P := Config.All P) (fun hstep hc => hstep.all hsend hmerge hc) hc

end Flow

/-! ## Well-formed states -/

/-- **What is queued has been reached**: there is an instruction and a frame for it. -/
structure State.WellFormed (g : Graph) (s : State) : Prop where
  size : s.frames.size = g.method.insns.size
  valid : s.queue.Valid
  reached : ∀ i ∈ s.queue.toList, ∃ f, s.frames[i]? = some (some f)

namespace State

variable {g : Graph} {s s' : State} {i j : Nat} {f : Frame}

/-- Where there is a frame, there is an instruction. -/
theorem WellFormed.exists_insn (hs : s.WellFormed g) (h : s.frames[i]? = some (some f)) :
    ∃ insn, g.method.insns[i]? = some insn := by
  obtain ⟨hi, _⟩ := Array.getElem?_eq_some_iff.mp h
  exact ⟨_, Array.getElem?_eq_getElem (hs.size ▸ hi)⟩

theorem Delivers.wellFormed (h : s.Delivers j f s') (hs : s.WellFormed g) : s'.WellFormed g := by
  refine ⟨h.size.trans hs.size, h.valid hs.valid, fun i hi => ?_⟩
  by_cases hmem : i ∈ s.queue.toList
  · obtain ⟨old, hold⟩ := hs.reached i hmem
    obtain ⟨new, hnew, _⟩ := h.grows hold
    exact ⟨new, hnew⟩
  · obtain rfl := h.eq_of_mem_queue hs.valid hi hmem
    obtain ⟨new, hnew, _⟩ := h.arrived
    exact ⟨new, hnew⟩

theorem WellFormed.pop {queue : Worklist Nat} (hs : s.WellFormed g)
    (hpop : s.queue.pop? = some (i, queue)) : { s with queue }.WellFormed g := by
  refine ⟨hs.size, (hs.valid.pop? hpop).1, fun k hk => hs.reached k ?_⟩
  rw [Worklist.toList_pop? hpop]
  exact List.mem_cons_of_mem i hk

/-- What is due for a visit has a frame and an instruction. -/
theorem WellFormed.due {queue : Worklist Nat} (hs : s.WellFormed g)
    (hpop : s.queue.pop? = some (i, queue)) :
    ∃ before, s.frames[i]? = some (some before) ∧ ∃ insn, g.method.insns[i]? = some insn := by
  have hmem : i ∈ s.queue.toList := by
    rw [Worklist.toList_pop? hpop]
    exact List.mem_cons_self
  obtain ⟨before, hf⟩ := hs.reached i hmem
  exact ⟨before, hf, hs.exists_insn hf⟩

/-- The frame that stands at the first position before the first visit is the one given. -/
theorem frames_start {size : Nat} {entry : Frame} (hsize : 0 < size) (i : Nat) (f : Frame) :
    (start size entry).frames[i]? = some (some f) ↔ i = 0 ∧ f = entry := by
  show ((Array.replicate size none).setIfInBounds 0 (some entry))[i]? = some (some f) ↔ _
  rw [Array.getElem?_setIfInBounds, Array.size_replicate]
  by_cases hi : i = 0
  · subst hi
    simp only [if_true, if_pos hsize, Option.some.injEq, true_and]
    exact eq_comm
  · rw [if_neg (Ne.symm hi), Array.getElem?_replicate]
    simp only [hi, false_and, iff_false]
    split <;> simp

theorem queue_start (size : Nat) (entry : Frame) : (start size entry).queue.toList = [0] :=
  Worklist.toList_push_of_not_mem Worklist.valid_empty (by simp [Worklist.toList, Worklist.empty])

theorem wellFormed_start {entry : Frame} (hsize : 0 < g.method.insns.size) :
    (start g.method.insns.size entry).WellFormed g := by
  refine ⟨by simp [start], Worklist.valid_empty.push 0, fun i hi => ⟨entry, ?_⟩⟩
  rw [queue_start, List.mem_singleton] at hi
  exact (frames_start hsize i entry).mpr ⟨hi, rfl⟩

end State

theorem Graph.method_of_ofMethod {m : Method} {g : Graph} (h : Graph.ofMethod m = .ok g) :
    g.method = m := by
  obtain ⟨guards, _, h⟩ := bind_eq_ok_iff.mp h
  cases h
  rfl

theorem Method.size_pos_of_hasCode {m : Method} (h : m.hasCode) : 0 < m.insns.size := by
  have hne : m.insns ≠ #[] := by simpa [hasCode] using h
  exact Array.size_pos_iff.mpr hne

/-! ## The loop is a run of the machine -/

namespace Flow

variable {g : Graph} {c c' : Config} {visits : List Nat} {popped : Option Nat} {s s' : State}

theorem Step.wellFormed (h : Step g c popped c') (hc : c.state.WellFormed g) :
    c'.state.WellFormed g := by
  cases h with
  | pop hpop _ _ => exact hc.pop hpop
  | deliver hd => exact hd.wellFormed hc

theorem Steps.wellFormed (h : Steps g c visits c') (hc : c.state.WellFormed g) :
    c'.state.WellFormed g :=
  h.keeps (P := fun c => c.state.WellFormed g) Step.wellFormed hc

theorem steps_of_deliverEach {i : Nat} {pending : List Packet}
    (h : deliverEach pending s = .ok s') : Steps g ⟨i, pending, s⟩ [] ⟨i, [], s'⟩ := by
  induction pending generalizing s with
  | nil =>
    cases h
    exact Steps.refl
  | cons p rest ih =>
    rcases p with halt | ⟨j, f⟩
    · exact nomatch h
    · unfold deliverEach at h
      split at h
      · exact nomatch h
      · rename_i mid hmid
        exact (Steps.single (.deliver (State.deliver_eq_ok_iff.mp hmid))).trans (ih h)

theorem ends_of_deliverEach {i : Nat} {insn : Insn} {pending : List Packet} {halt : Halt Cause}
    (hi : g.method.insns[i]? = some insn) (h : deliverEach pending s = .error halt) :
    ∃ c, Steps g ⟨i, pending, s⟩ [] c ∧ Ends g c (.error (haltAt i insn halt)) := by
  induction pending generalizing s with
  | nil => exact nomatch h
  | cons p rest ih =>
    rcases p with halt' | ⟨j, f⟩
    · cases h
      exact ⟨_, Steps.refl, .failed hi⟩
    · unfold deliverEach at h
      split at h
      · rename_i hrefused
        cases h
        exact ⟨_, Steps.refl, .refused hi hrefused⟩
      · rename_i mid hmid
        obtain ⟨c, hsteps, hends⟩ := ih h
        exact ⟨c, (Steps.single (.deliver (State.deliver_eq_ok_iff.mp hmid))).trans hsteps, hends⟩

theorem run_of_pop?_none (h : s.queue.pop? = none) : run g s = .ok s.frames := by
  rw [run]
  split
  · rfl
  · rename_i hpop
    rw [h] at hpop
    cases hpop

theorem run_of_pop?_some {i : Nat} {queue : Worklist Nat} (h : s.queue.pop? = some (i, queue)) :
    run g s =
      match visitQueued g i { s with queue } with
      | .error halt => .error halt
      | .ok s' => run g s' := by
  rw [run]
  split
  · rename_i hpop
    rw [h] at hpop
    cases hpop
  · rename_i hpop
    rw [h] at hpop
    cases hpop
    split
    · rename_i hvisit
      rw [hvisit]
    · rename_i hvisit
      rw [hvisit]

theorem visitQueued_eq {i : Nat} {insn : Insn} {before : Frame}
    (hi : g.method.insns[i]? = some insn) (hf : s.frames[i]? = some (some before)) :
    visitQueued g i s =
      match deliverEach (outgoing g i insn before) s with
      | .error halt => .error (haltAt i insn halt)
      | .ok s' => .ok s' := by
  unfold visitQueued
  cases hdeliver : deliverEach (outgoing g i insn before) s with
  | error halt => simp only [hi, hf, Option.join_some, visit_eq_deliverEach, hdeliver]
  | ok s' => simp only [hi, hf, Option.join_some, visit_eq_deliverEach, hdeliver]

/-- The rest of a visit, after the position was taken off the queue. -/
theorem steps_of_visitQueued {i : Nat} {insn : Insn} {before : Frame}
    (hi : g.method.insns[i]? = some insn) (hf : s.frames[i]? = some (some before))
    (h : visitQueued g i s = .ok s') : Steps g ⟨i, outgoing g i insn before, s⟩ [] ⟨i, [], s'⟩ := by
  rw [visitQueued_eq hi hf] at h
  split at h
  · cases h
  · rename_i hdeliver
    cases h
    exact steps_of_deliverEach hdeliver

/-- **The loop is a run of the machine** that ends with the outcome of the loop. -/
theorem exists_steps_run (g : Graph) (s : State) (k : Nat) (hs : s.WellFormed g) :
    ∃ visits c, Steps g ⟨k, [], s⟩ visits c ∧ Ends g c (run g s) := by
  -- The induction is that of the loop; a visit is a pop and then the deliveries of its packets.
  induction s using run.induct g generalizing k with
  | case1 s hpop =>
    rw [run_of_pop?_none hpop]
    exact ⟨[], _, Steps.refl, .done hpop⟩
  | case2 s i queue hpop halt hvisit =>
    obtain ⟨before, hf, insn, hi⟩ := hs.due hpop
    rw [run_of_pop?_some hpop, hvisit]
    rw [visitQueued_eq (s := { s with queue }) hi hf] at hvisit
    split at hvisit
    · rename_i hfail
      cases hvisit
      obtain ⟨c, hsteps, hends⟩ := ends_of_deliverEach hi hfail
      exact ⟨_, c, (Steps.single (.pop hpop hi hf)).trans hsteps, hends⟩
    · exact nomatch hvisit
  | case3 s i queue hpop s' hvisit ih =>
    obtain ⟨before, hf, insn, hi⟩ := hs.due hpop
    rw [run_of_pop?_some hpop, hvisit]
    have hvisits : Steps g ⟨k, [], s⟩ _ ⟨i, [], s'⟩ :=
      (Steps.single (.pop hpop hi hf)).trans (steps_of_visitQueued (s := { s with queue }) hi hf hvisit)
    obtain ⟨visits, c, hsteps, hends⟩ := ih i (hvisits.wellFormed hs)
    exact ⟨_, c, hvisits.trans hsteps, hends⟩

theorem analyze_eq_run {owner : String} {m : Method} {entry : Frame} (hcode : m.hasCode)
    (hg : Graph.ofMethod m = .ok g) (hentry : entryFrame owner m = .ok entry) :
    analyze owner m = run g (State.start m.insns.size entry) := by
  unfold analyze
  rw [hcode, hg, hentry]
  rfl

/-- The state before the first visit is well-formed. -/
theorem wellFormed_start {m : Method} {entry : Frame} (hcode : m.hasCode)
    (hg : Graph.ofMethod m = .ok g) : (State.start m.insns.size entry).WellFormed g := by
  have hmethod := Graph.method_of_ofMethod hg
  have hsize := m.size_pos_of_hasCode hcode
  rw [← hmethod] at hsize ⊢
  exact State.wellFormed_start hsize

/-- Before the first visit there is no frame but the first. -/
theorem all_start {P : Nat → Frame → Prop} {m : Method} {entry : Frame} (hcode : m.hasCode)
    (h : P 0 entry) : Config.All P ⟨0, [], State.start m.insns.size entry⟩ := by
  refine ⟨fun i f hf => ?_, fun j f hp => absurd hp List.not_mem_nil⟩
  obtain ⟨rfl, rfl⟩ := (State.frames_start (m.size_pos_of_hasCode hcode) i f).mp hf
  exact h

/-- A run from the first frame of a method ends with the outcome of its analysis. -/
theorem exists_steps_analyze {owner : String} {m : Method} {entry : Frame} (hcode : m.hasCode)
    (hg : Graph.ofMethod m = .ok g) (hentry : entryFrame owner m = .ok entry) :
    ∃ visits c, Steps g ⟨0, [], State.start m.insns.size entry⟩ visits c ∧
      Ends g c (analyze owner m) := by
  rw [analyze_eq_run hcode hg hentry]
  exact exists_steps_run g _ 0 (wellFormed_start hcode hg)

/-- An analysis that succeeds has a graph, a first frame, and a run that ends with nothing to do. -/
theorem exists_steps_of_analyze {owner : String} {m : Method} {frames : Array (Option Frame)}
    (hcode : m.hasCode) (h : analyze owner m = .ok frames) :
    ∃ g entry visits k s, Graph.ofMethod m = .ok g ∧ entryFrame owner m = .ok entry ∧
      Steps g ⟨0, [], State.start m.insns.size entry⟩ visits ⟨k, [], s⟩ ∧
      s.queue.toList = [] ∧ s.frames = frames := by
  have hbind := h
  unfold analyze at hbind
  rw [hcode] at hbind
  obtain ⟨g, hg, hbind⟩ := bind_eq_ok_iff.mp hbind
  obtain ⟨entry, hentry, -⟩ := bind_eq_ok_iff.mp hbind
  rw [mapError_eq_ok_iff] at hg
  obtain ⟨visits, c, hsteps, hends⟩ := exists_steps_analyze hcode hg hentry
  rw [h] at hends
  cases hends with
  | @done k s hpop =>
    exact ⟨g, entry, visits, k, s, hg, hentry, hsteps, Worklist.pop?_eq_none_iff.mp hpop, rfl⟩

end Flow

end StackMap
