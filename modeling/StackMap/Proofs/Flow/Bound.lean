import Mathlib.Order.WellFounded
import StackMap.Proofs.Flow.Solution

/-!
# `Proofs.Flow.Bound`: how often a position is visited

A position is queued when it gets its first frame and whenever its frame changes. Each change loses a
slot for good, so with every visit there is less left to lose, and the positions of a method are visited
only finitely often: each at most once more than its first frame has slots.

## Contents

* `Frame.known_le`: a frame cannot lose more than its slots.
* `wellFounded_step`: there is no infinite run.
* `Budget`: visits made, visits due and slots left to lose, together.
* `visits_le_slots`: the bound.
-/

namespace StackMap

theorem countKnown_le_length (l : List Slot) : countKnown l ≤ l.length := List.countP_le_length

/-- A frame cannot lose more than its slots. -/
theorem Frame.known_le (f : Frame) : f.known ≤ f.locals.size + f.stack.length := by
  have hlocals := countKnown_le_length f.locals.toList
  have hstack := countKnown_le_length f.stack
  rw [Array.length_toList] at hlocals
  unfold known
  omega

theorem Worklist.count_push_le {w : Worklist Nat} (hw : w.Valid) (i j : Nat) :
    (w.push j).toList.count i ≤ w.toList.count i + if j = i then 1 else 0 := by
  by_cases hj : j ∈ w.toList
  · rw [push_of_mem hw hj]
    exact Nat.le_add_right _ _
  · rw [toList_push_of_not_mem hw hj, List.count_append, List.count_singleton]
    simp only [beq_iff_eq, le_refl]

/-- A delivery queues its own position, and that once. -/
theorem State.Delivers.count_queue_le {s s' : State} {j : Nat} {f : Frame} (h : s.Delivers j f s')
    (hq : s.queue.Valid) (i : Nat) :
    s'.queue.toList.count i ≤ s.queue.toList.count i + if j = i then 1 else 0 := by
  cases h with
  | first _ => exact Worklist.count_push_le hq i j
  | absorbed _ _ => exact Nat.le_add_right _ _
  | joined _ _ _ => exact Worklist.count_push_le hq i j

namespace Flow

variable {g : Graph} {entry : Frame} {c c' : Config} {visits : List Nat} {popped : Option Nat}

/-! ## There is no infinite run -/

/-- What is left to do, in lexicographic order: positions to reach, slots to lose, positions to visit,
packets to deliver. -/
def Config.left (c : Config) : Nat × Nat × Nat × Nat :=
  (c.state.unset, c.state.known, c.state.queue.length, c.pending.length)

theorem Step.left_lt (h : Step g c popped c') :
    Prod.Lex (· < ·) (Prod.Lex (· < ·) (Prod.Lex (· < ·) (· < ·))) c'.left c.left := by
  cases h with
  | pop hpop _ _ =>
    -- A pop forms new packets, but leaves fewer positions to visit.
    have hlen := Worklist.length_pop? hpop
    exact Prod.Lex.right _ (Prod.Lex.right _ (Prod.Lex.left _ _ (hlen ▸ Nat.lt_succ_self _)))
  | deliver hd =>
    rcases State.deliver_eq_or_progress (State.deliver_eq_ok_iff.mpr hd)
      with rfl | hunset | ⟨hunset, hknown⟩
    · exact Prod.Lex.right _ (Prod.Lex.right _ (Prod.Lex.right _ (Nat.lt_succ_self _)))
    · exact Prod.Lex.left _ _ hunset
    · unfold Config.left
      rw [hunset]
      exact Prod.Lex.right _ (Prod.Lex.left _ _ hknown)

/-- **There is no infinite run.** -/
theorem wellFounded_step (g : Graph) : WellFounded fun c' c => ∃ popped, Step g c popped c' := by
  refine Subrelation.wf ?_ (InvImage.wf Config.left
    (WellFounded.prod_lex Nat.lt_wfRel.wf (WellFounded.prod_lex Nat.lt_wfRel.wf
      (WellFounded.prod_lex Nat.lt_wfRel.wf Nat.lt_wfRel.wf))))
  rintro c' c ⟨popped, h⟩
  exact h.left_lt

/-! ## The budget of a position -/

/-- **The budget of a position**: the visits made, the one that is due and the slots that its frame can
still lose are together at most one more than the slots of that frame. -/
structure Budget (locals i : Nat) (visits : List Nat) (s : State) : Prop where
  unreached : (∀ f, s.frames[i]? ≠ some (some f)) → visits.count i = 0
  reached : ∀ f, s.frames[i]? = some (some f) →
    visits.count i + s.queue.toList.count i + f.known ≤ 1 + locals + f.stack.length

section

variable {locals i j : Nat} {s s' : State} {f : Frame}

/-- A visit that was due has been made. -/
theorem Budget.pop {queue : Worklist Nat} (h : Budget locals i visits s)
    (hpop : s.queue.pop? = some (j, queue)) (hf : s.frames[j]? = some (some f)) :
    Budget locals i (visits ++ [j]) { s with queue } := by
  have hqueue : s.queue.toList.count i = queue.toList.count i + if j = i then 1 else 0 := by
    rw [Worklist.toList_pop? hpop, List.count_cons]
    simp only [beq_iff_eq]
  have hvisits : (visits ++ [j]).count i = visits.count i + if j = i then 1 else 0 := by
    rw [List.count_append, List.count_singleton]
    simp only [beq_iff_eq]
  constructor
  · intro hnone
    have hne : j ≠ i := fun heq => hnone f (heq ▸ hf)
    rw [hvisits, if_neg hne]
    exact h.unreached hnone
  · intro f' hf'
    have hbudget := h.reached f' hf'
    show _ + queue.toList.count i + _ ≤ _
    rw [hvisits]
    omega

/-- A delivery to another position does not matter. -/
theorem Budget.deliver_of_ne (h : Budget locals i visits s) (hd : s.Delivers j f s')
    (hq : s.queue.Valid) (hne : j ≠ i) : Budget locals i visits s' := by
  have hcount := hd.count_queue_le hq i
  rw [if_neg hne] at hcount
  have hget := hd.getElem?_of_ne (Ne.symm hne)
  constructor
  · exact fun hnone => h.unreached (fun f' hf' => hnone f' (hget.trans hf'))
  · intro new hnew
    have hbudget := h.reached new (hget.symm.trans hnew)
    omega

/-- A delivery that makes a visit due gives the position its first frame, or loses a slot of the one
there. -/
theorem Budget.deliver_self (h : Budget locals i visits s) (hd : s.Delivers i f s')
    (hwf : s.WellFormed g) (hlocals : f.locals.size = locals) : Budget locals i visits s' := by
  have hcount := hd.count_queue_le hwf.valid i
  rw [if_pos rfl] at hcount
  rcases hd.at_self with ⟨hnone, hnew⟩ | ⟨old, new, hold, hnew, hmerge, hchange⟩
  · -- The first frame: nothing was visited or queued before, and it can lose its slots.
    have hunreached : ∀ f', s.frames[i]? ≠ some (some f') := by
      intro f' hf'
      cases hnone.symm.trans hf'
    have hvisits := h.unreached hunreached
    have hqueue : s.queue.toList.count i = 0 := by
      refine List.count_eq_zero.mpr fun hmem => ?_
      obtain ⟨f', hf'⟩ := hwf.reached i hmem
      exact hunreached f' hf'
    have hknown := f.known_le
    refine ⟨fun hnone' => absurd hnew (hnone' f), fun new hnew' => ?_⟩
    cases hnew.symm.trans hnew'
    omega
  · refine ⟨fun hnone => absurd hnew (hnone new), fun new' hnew' => ?_⟩
    cases hnew.symm.trans hnew'
    rcases hchange with rfl | hne
    · exact h.reached new hnew'
    · -- A change pays for the visit that it makes due with a slot.
      have hbudget := h.reached old hold
      have hlost := Frame.known_merge_lt hmerge hne
      have hheight := (Frame.below_of_merge hmerge).1.height
      omega

end

theorem Step.budget {locals i : Nat} (h : Step g c popped c') (hwf : c.state.WellFormed g)
    (hlocals : ∀ j f, .ok (j, f) ∈ c.pending → f.locals.size = locals)
    (hc : Budget locals i visits c.state) :
    Budget locals i (visits ++ popped.toList) c'.state := by
  cases h with
  | pop hpop _ hf => exact hc.pop hpop hf
  | @deliver _ j _ _ f _ hd =>
    rw [Option.toList_none, List.append_nil]
    by_cases hji : j = i
    · subst hji
      exact hc.deliver_self hd hwf (hlocals j f List.mem_cons_self)
    · exact hc.deliver_of_ne hd hwf.valid hji

/-- **A run keeps within the budget.** -/
theorem Steps.budget {locals i : Nat} (h : Steps g c visits c') (hwf : c.state.WellFormed g)
    (hlocals : c.All fun _ f => f.locals.size = locals) (hc : Budget locals i [] c.state) :
    Budget locals i visits c'.state := by
  induction h with
  | refl => exact hc
  | tail hsteps hstep ih =>
    have hlocals' := hsteps.all
      (fun _ _ _ _ _ _ hf hp => (peer_of_outgoing hp).locals.symm.trans hf)
      (fun _ _ _ _ hold _ hm => (Frame.peer_of_merge hm).locals.symm.trans hold) hlocals
    exact hstep.budget (hsteps.wellFormed hwf) hlocals'.pending ih

theorem budget_start {m : Method} (hcode : m.hasCode) (i : Nat) :
    Budget entry.locals.size i [] (State.start m.insns.size entry) := by
  refine ⟨fun _ => rfl, fun f hf => ?_⟩
  obtain ⟨-, rfl⟩ := (State.frames_start (m.size_pos_of_hasCode hcode) i f).mp hf
  have hknown := f.known_le
  have hqueue : (State.start m.insns.size f).queue.toList.count i ≤ 1 := by
    rw [State.queue_start]
    exact List.count_le_length
  rw [List.count_nil]
  omega

/-- **The loop ends, and visits a position at most once more than its first frame has slots.** There is a
run that ends with the outcome of the analysis and none that goes on for ever; what is visited has a
frame; and if a frame stands at a position at any moment of a run, the first one there as any other, then
the position is visited at most `1 + maxLocals + h` times in the whole run, where `h` is the height of that
frame's stack. -/
theorem visits_le_slots {owner : String} {m : Method} (hcode : m.hasCode)
    (hg : Graph.ofMethod m = .ok g) (hentry : entryFrame owner m = .ok entry) :
    (∃ visits c, Steps g ⟨0, [], State.start m.insns.size entry⟩ visits c ∧
      Ends g c (analyze owner m)) ∧
    (¬ ∃ run : Nat → Config, run 0 = ⟨0, [], State.start m.insns.size entry⟩ ∧
      ∀ n, ∃ popped, Step g (run n) popped (run (n + 1))) ∧
    (∀ visits c, Steps g ⟨0, [], State.start m.insns.size entry⟩ visits c →
      ∀ i ∈ visits, ∃ f, c.state.frames[i]? = some (some f)) ∧
    ∀ visits c later c', Steps g ⟨0, [], State.start m.insns.size entry⟩ visits c →
      Steps g c later c' → ∀ i f, c.state.frames[i]? = some (some f) →
        (visits ++ later).count i ≤ 1 + m.maxLocals.toNat + f.stack.length := by
  have hbudget : ∀ visits c, Steps g ⟨0, [], State.start m.insns.size entry⟩ visits c →
      ∀ i, Budget entry.locals.size i visits c.state := by
    intro visits c hsteps i
    exact hsteps.budget (wellFormed_start hcode hg) (all_start hcode rfl) (budget_start hcode i)
  refine ⟨exists_steps_analyze hcode hg hentry, ?_, ?_, ?_⟩
  · intro hrun
    exact not_acc_iff_exists_descending_chain.mpr hrun ((wellFounded_step g).apply _)
  · intro visits c hsteps i hi
    by_contra hnone
    rw [not_exists] at hnone
    have hzero := (hbudget visits c hsteps i).unreached hnone
    exact absurd hi (List.count_eq_zero.mp hzero)
  · intro visits c later c' hsteps hlater i f hf
    -- The height of a stack never changes, so the budget at the end is that of the first frame.
    obtain ⟨f', hf', hbelow⟩ := hlater.grows hf
    have hle := (hbudget _ _ (hsteps.trans hlater) i).reached f' hf'
    rw [size_entryFrame hentry, ← hbelow.height] at hle
    omega

/-- The loop of a method with a loop: its head is visited three times at most. -/
theorem visits_le_slots_countdown :
    ∃ visits c, Steps Countdown.graph ⟨0, [], State.start 12 Countdown.entry⟩ visits c ∧
      Ends Countdown.graph c (.ok Countdown.frames) ∧ visits.count 2 ≤ 3 := by
  obtain ⟨⟨visits, c, hsteps, hends⟩, -, -, hbound⟩ :=
    visits_le_slots rfl Countdown.ofMethod_eq Countdown.entryFrame_eq
  rw [Countdown.analyze_eq] at hends
  refine ⟨visits, c, hsteps, hends, ?_⟩
  have hframe : c.state.frames[2]? = some (some Countdown.entry) := by
    rw [hends.frames_eq]
    rfl
  have hcount := hbound visits c [] c hsteps Steps.refl 2 Countdown.entry hframe
  rwa [List.append_nil] at hcount

end Flow

end StackMap
