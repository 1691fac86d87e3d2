import StackMap.Proofs.Flow.Entry
import StackMap.Proofs.Worklist

/-!
# `Proofs.Flow.Deliver`: what deliveries do

A delivery gives a position its first frame, is absorbed by the frame there, or replaces that frame by a
join. Everything that is proved about the analysis rests on these three cases. A visit is a sequence of
deliveries: it sends packets, which carry the frame behind the instruction to each of its targets and
the frame of an exception to each handler.

## Contents

* `State.Delivers`, `State.deliver_eq_ok_iff`: what a delivery can do.
* `State.Delivers.grows`, `State.Delivers.unchanged`, `State.Delivers.forall_frames`: what it does to
  the frames.
* `Packet`, `outgoing`, `visit_eq_deliverEach`: a visit as deliveries.
-/

namespace StackMap

/-! ## Deliveries -/

namespace State

variable {s s' : State} {i j : Nat} {f : Frame}

/-- **What a delivery can do**: the position gets its first frame, or the frame there is above the one
that arrives, or it is replaced by the join of the two. -/
inductive Delivers (s : State) (j : Nat) (f : Frame) : State → Prop where
  | first : s.frames[j]? = some none →
      Delivers s j f ⟨s.frames.setIfInBounds j (some f), s.queue.push j⟩
  | absorbed {old : Frame} : s.frames[j]? = some (some old) → f.Below old → Delivers s j f s
  | joined {old new : Frame} : s.frames[j]? = some (some old) → old.merge f = .ok new → new ≠ old →
      Delivers s j f ⟨s.frames.setIfInBounds j (some new), s.queue.push j⟩

/-- A delivery by what stands at the position. -/
theorem deliver_eq (s : State) (j : Nat) (f : Frame) :
    s.deliver j f =
      match s.frames[j]? with
      | none => .error (.failed .fallOffEnd)
      | some none => .ok ⟨s.frames.setIfInBounds j (some f), s.queue.push j⟩
      | some (some old) =>
        match old.merge f with
        | .error halt => .error halt
        | .ok new =>
          if new = old then .ok s
          else .ok ⟨s.frames.setIfInBounds j (some new), s.queue.push j⟩ := by
  unfold deliver
  by_cases hj : j < s.frames.size
  · rw [dif_pos hj, Array.getElem?_eq_getElem hj]
    simp only [Array.setIfInBounds_def, dif_pos hj]
    cases s.frames[j] <;> rfl
  · rw [dif_neg hj, Array.getElem?_eq_none (Nat.not_lt.mp hj)]

theorem deliver_eq_ok_iff : s.deliver j f = .ok s' ↔ s.Delivers j f s' := by
  constructor
  · intro h
    rw [deliver_eq] at h
    split at h
    · exact nomatch h
    · rename_i hnone
      cases h
      exact .first hnone
    · rename_i old hold
      split at h
      · exact nomatch h
      · rename_i new hmerge
        split at h
        · rename_i hnew
          cases h
          rw [hnew] at hmerge
          exact .absorbed hold (Frame.merge_eq_self_iff.mp hmerge)
        · rename_i hnew
          cases h
          exact .joined hold hmerge hnew
  · intro h
    rw [deliver_eq]
    cases h with
    | first hnone => simp only [hnone]
    | absorbed hold hbelow => simp only [hold, Frame.merge_eq_self_iff.mpr hbelow, if_pos]
    | joined hold hmerge hnew => simp only [hold, hmerge, if_neg hnew]

/-- A delivery changes the frame at its position only. -/
theorem Delivers.getElem?_of_ne (h : s.Delivers j f s') (hne : i ≠ j) :
    s'.frames[i]? = s.frames[i]? := by
  cases h with
  | first _ => exact Array.getElem?_setIfInBounds_ne (Ne.symm hne)
  | absorbed _ _ => rfl
  | joined _ _ _ => exact Array.getElem?_setIfInBounds_ne (Ne.symm hne)

theorem Delivers.size (h : s.Delivers j f s') : s'.frames.size = s.frames.size := by
  cases h with
  | first _ => exact Array.size_setIfInBounds
  | absorbed _ _ => rfl
  | joined _ _ _ => exact Array.size_setIfInBounds

/-- What stands at the position of a delivery, before and afterwards. -/
theorem Delivers.at_self (h : s.Delivers j f s') :
    s.frames[j]? = some none ∧ s'.frames[j]? = some (some f) ∨
      ∃ old new, s.frames[j]? = some (some old) ∧ s'.frames[j]? = some (some new) ∧
        old.merge f = .ok new ∧ (s' = s ∨ new ≠ old) := by
  cases h with
  | first hnone =>
    obtain ⟨hj, _⟩ := Array.getElem?_eq_some_iff.mp hnone
    exact Or.inl ⟨hnone, Array.getElem?_setIfInBounds_self_of_lt hj⟩
  | @absorbed old hold hbelow =>
    exact Or.inr ⟨old, old, hold, hold, Frame.merge_eq_self_iff.mpr hbelow, Or.inl rfl⟩
  | @joined old new hold hmerge hnew =>
    obtain ⟨hj, _⟩ := Array.getElem?_eq_some_iff.mp hold
    exact Or.inr ⟨old, new, hold, Array.getElem?_setIfInBounds_self_of_lt hj, hmerge, Or.inr hnew⟩

/-- **What arrives is below the frame that is there afterwards.** -/
theorem Delivers.arrived (h : s.Delivers j f s') :
    ∃ new, s'.frames[j]? = some (some new) ∧ f.Below new := by
  rcases h.at_self with ⟨_, hnew⟩ | ⟨old, new, _, hnew, hmerge, _⟩
  · exact ⟨f, hnew, Frame.Below.refl f⟩
  · exact ⟨new, hnew, (Frame.below_of_merge hmerge).2⟩

/-- **Frames only go up.** -/
theorem Delivers.grows (h : s.Delivers j f s') {old : Frame}
    (hold : s.frames[i]? = some (some old)) :
    ∃ new, s'.frames[i]? = some (some new) ∧ old.Below new := by
  by_cases hij : i = j
  · subst hij
    rcases h.at_self with ⟨hnone, _⟩ | ⟨old', new, hold', hnew, hmerge, _⟩
    · cases hold.symm.trans hnone
    · cases hold.symm.trans hold'
      exact ⟨new, hnew, (Frame.below_of_merge hmerge).1⟩
  · exact ⟨old, (h.getElem?_of_ne hij).trans hold, Frame.Below.refl old⟩

/-- A frame at a position that is not queued afterwards was there before. -/
theorem Delivers.unchanged (h : s.Delivers j f s') (hq : s.queue.Valid) {new : Frame}
    (hnew : s'.frames[i]? = some (some new)) (hnot : i ∉ s'.queue.toList) :
    s.frames[i]? = some (some new) := by
  by_cases hij : i = j
  · subst hij
    cases h with
    | first _ => exact absurd ((Worklist.mem_toList_push hq).mpr (Or.inr rfl)) hnot
    | absorbed _ _ => exact hnew
    | joined _ _ _ => exact absurd ((Worklist.mem_toList_push hq).mpr (Or.inr rfl)) hnot
  · rw [← h.getElem?_of_ne hij]
    exact hnew

/-- A property of frames that holds of the one that arrives and is kept by merging it holds of all
frames afterwards if it did before. -/
theorem Delivers.forall_frames {P : Nat → Frame → Prop} (h : s.Delivers j f s') (hf : P j f)
    (hmerge : ∀ old new, P j old → old.merge f = .ok new → P j new)
    (hall : ∀ i old, s.frames[i]? = some (some old) → P i old) :
    ∀ i new, s'.frames[i]? = some (some new) → P i new := by
  intro i new hnew
  by_cases hij : i = j
  · subst hij
    rcases h.at_self with ⟨_, hnew'⟩ | ⟨old, new', hold, hnew', hm, _⟩
    · cases hnew.symm.trans hnew'
      exact hf
    · cases hnew.symm.trans hnew'
      exact hmerge old new (hall i old hold) hm
  · rw [h.getElem?_of_ne hij] at hnew
    exact hall i new hnew

theorem Delivers.valid (h : s.Delivers j f s') (hq : s.queue.Valid) : s'.queue.Valid := by
  cases h with
  | first _ => exact hq.push j
  | absorbed _ _ => exact hq
  | joined _ _ _ => exact hq.push j

/-- A delivery takes nothing off the queue. -/
theorem Delivers.mem_queue (h : s.Delivers j f s') (hq : s.queue.Valid)
    (hi : i ∈ s.queue.toList) : i ∈ s'.queue.toList := by
  cases h with
  | first _ => exact (Worklist.mem_toList_push hq).mpr (Or.inl hi)
  | absorbed _ _ => exact hi
  | joined _ _ _ => exact (Worklist.mem_toList_push hq).mpr (Or.inl hi)

/-- A delivery queues its position only. -/
theorem Delivers.eq_of_mem_queue (h : s.Delivers j f s') (hq : s.queue.Valid)
    (hi : i ∈ s'.queue.toList) (hnot : i ∉ s.queue.toList) : i = j := by
  cases h with
  | first _ => exact ((Worklist.mem_toList_push hq).mp hi).resolve_left hnot
  | absorbed _ _ => exact absurd hi hnot
  | joined _ _ _ => exact ((Worklist.mem_toList_push hq).mp hi).resolve_left hnot

end State

/-! ## A visit as deliveries -/

namespace Flow

/-- **A packet**: a frame on its way to a position, or the reason why the visit ends here. -/
abbrev Packet := Except (Halt Cause) (Nat × Frame)

/-- The packet that carries a frame to a target. -/
def packetTo (f : Frame) : Except Label Nat → Packet
  | .ok j => .ok (j, f)
  | .error l => .error (.failed (.unknownLabel l))

/-- The packet that carries an exception to a handler. -/
def packetFor (f : Frame) (h : Handler) : Packet := .ok (h.index, handlerFrame f h)

/-- **The packets of a visit**, in order. -/
def outgoing (g : Graph) (i : Nat) (insn : Insn) (before : Frame) : List Packet :=
  match before.execute insn with
  | .error halt => [.error halt]
  | .ok after => (g.targets i insn).map (packetTo after) ++ (g.handlersAt i).map (packetFor before)

/-- The frames that a visit sends. -/
theorem mem_outgoing_iff {g : Graph} {i j : Nat} {insn : Insn} {f f' : Frame} :
    .ok (j, f') ∈ outgoing g i insn f ↔
      ∃ after, f.execute insn = .ok after ∧
        (.ok j ∈ g.targets i insn ∧ f' = after ∨
          ∃ handler ∈ g.handlersAt i, handler.index = j ∧ f' = handlerFrame f handler) := by
  unfold outgoing
  cases f.execute insn with
  | error halt => simp
  | ok after =>
    simp only [List.mem_append, List.mem_map, Except.ok.injEq, exists_eq_left']
    refine or_congr ⟨?_, ?_⟩ ⟨?_, ?_⟩
    · rintro ⟨t, ht, hp⟩
      cases t with
      | error l => exact nomatch hp
      | ok k =>
        cases hp
        exact ⟨ht, rfl⟩
    · rintro ⟨ht, rfl⟩
      exact ⟨.ok j, ht, rfl⟩
    · rintro ⟨handler, hh, hp⟩
      cases hp
      exact ⟨handler, hh, rfl, rfl⟩
    · rintro ⟨handler, hh, rfl, rfl⟩
      exact ⟨handler, hh, rfl⟩

/-- Packets are delivered in turn, up to the first that cannot be. -/
def deliverEach : List Packet → State → Except (Halt Cause) State
  | [], s => .ok s
  | .error halt :: _, _ => .error halt
  | .ok (j, f) :: rest, s =>
    match s.deliver j f with
    | .error halt => .error halt
    | .ok s' => deliverEach rest s'

theorem deliverEach_append (l l' : List Packet) (s : State) :
    deliverEach (l ++ l') s =
      match deliverEach l s with
      | .error halt => .error halt
      | .ok s' => deliverEach l' s' := by
  induction l generalizing s with
  | nil => rfl
  | cons p l ih =>
    rcases p with halt | ⟨j, f⟩
    · rfl
    · simp only [List.cons_append, deliverEach]
      cases s.deliver j f with
      | error halt => rfl
      | ok s' => exact ih s'

theorem deliverAll_eq_deliverEach (f : Frame) (ts : List (Except Label Nat)) (s : State) :
    deliverAll f ts s = deliverEach (ts.map (packetTo f)) s := by
  induction ts generalizing s with
  | nil => rfl
  | cons t ts ih =>
    rcases t with l | j
    · rfl
    · simp only [deliverAll, List.map_cons, packetTo, deliverEach]
      cases s.deliver j f with
      | error halt => rfl
      | ok s' => exact ih s'

theorem deliverHandlers_eq_deliverEach (f : Frame) (hs : List Handler) (s : State) :
    deliverHandlers f hs s = deliverEach (hs.map (packetFor f)) s := by
  induction hs generalizing s with
  | nil => rfl
  | cons h hs ih =>
    simp only [deliverHandlers, List.map_cons, packetFor, deliverEach]
    cases s.deliver h.index (handlerFrame f h) with
    | error halt => rfl
    | ok s' => exact ih s'

/-- **A visit delivers its packets.** -/
theorem visit_eq_deliverEach (g : Graph) (i : Nat) (insn : Insn) (before : Frame) (s : State) :
    visit g i insn before s = deliverEach (outgoing g i insn before) s := by
  unfold visit outgoing
  cases before.execute insn with
  | error halt => rfl
  | ok after =>
    show _ = deliverEach ((g.targets i insn).map (packetTo after) ++
      (g.handlersAt i).map (packetFor before)) s
    rw [deliverEach_append, ← deliverAll_eq_deliverEach]
    cases hdeliver : deliverAll after (g.targets i insn) s with
    | error halt => simp only [hdeliver]
    | ok s' =>
      simp only [hdeliver]
      exact deliverHandlers_eq_deliverEach before (g.handlersAt i) s'

end Flow

end StackMap
