import StackMap.Frame.Basic
import StackMap.Worklist

/-!
# `Flow.State`: frames under construction

The analysis keeps a frame for each instruction that it has reached, and the positions whose frame has
changed since they were last visited. A frame that reaches a position is joined with the one there.
That can happen only finitely often: either a position gets its first frame, or some slot becomes
`uninit` for good.

## Contents

* `State`, `State.deliver`: the state, and the arrival of a frame at a position.
* `Frame.known`, `State.unset`, `State.known`: what is left to lose.
* `State.deliver_eq_or_progress`: a delivery changes nothing or makes progress.
-/

namespace StackMap

/-- Whether a slot says anything. -/
def Slot.isKnown (v : Slot) : Bool := v != some .uninit

namespace Slot

theorem isKnown_merge_le {a b : Slot} (h : (merge a b).isKnown) : a.isKnown := by
  unfold merge at h
  split at h
  · exact h
  · simp [isKnown] at h

theorem merge_ne {a b : Slot} (h : merge a b ≠ a) : a.isKnown ∧ (merge a b).isKnown = false := by
  unfold merge at h ⊢
  split at h
  · simp at h
  · rename_i hab
    simp only [hab, if_false]
    refine ⟨?_, by simp [isKnown]⟩
    simp only [isKnown, bne_iff_ne, ne_eq]
    exact fun ha => h ha.symm

end Slot

/-- The number of slots of a list that say something. -/
def countKnown (slots : List Slot) : Nat := slots.countP Slot.isKnown

theorem countKnown_zipWith_le (a b : List Slot) :
    countKnown (List.zipWith Slot.merge a b) ≤ countKnown a := by
  induction a generalizing b with
  | nil => simp [countKnown]
  | cons x a ih =>
    cases b with
    | nil => simp [countKnown]
    | cons y b =>
      have := ih b
      simp only [countKnown, List.zipWith_cons_cons, List.countP_cons] at this ⊢
      by_cases h : (Slot.merge x y).isKnown
      · simp only [h, Slot.isKnown_merge_le h, if_true]; omega
      · simp only [h, Bool.false_eq_true, if_false]; omega

/-- **A join that changes a list of slots loses something.** -/
theorem countKnown_zipWith_lt {a b : List Slot} (hlen : a.length = b.length)
    (h : List.zipWith Slot.merge a b ≠ a) :
    countKnown (List.zipWith Slot.merge a b) < countKnown a := by
  induction a generalizing b with
  | nil => simp at h
  | cons x a ih =>
    cases b with
    | nil => simp at hlen
    | cons y b =>
      simp only [List.length_cons, Nat.add_right_cancel_iff] at hlen
      simp only [List.zipWith_cons_cons, ne_eq, List.cons.injEq, not_and] at h
      have hle := countKnown_zipWith_le a b
      simp only [countKnown, List.zipWith_cons_cons, List.countP_cons] at hle ⊢
      by_cases hx : Slot.merge x y = x
      · have := ih hlen (h hx)
        simp only [countKnown] at this
        rw [hx]; omega
      · obtain ⟨hk, hm⟩ := Slot.merge_ne hx
        simp only [hk, hm, if_true, Bool.false_eq_true, if_false]; omega

/-- The number of slots of a frame that say something. -/
def Frame.known (f : Frame) : Nat := countKnown f.locals.toList + countKnown f.stack

/-- **A merge that changes a frame loses something.** -/
theorem Frame.known_merge_lt {f g f' : Frame} (h : f.merge g = .ok f') (hne : f' ≠ f) :
    f'.known < f.known := by
  unfold Frame.merge at h
  split at h
  · simp at h
  split at h
  · simp at h
  rename_i hstack hlocals
  simp only [Except.ok.injEq] at h
  subst h
  simp only [ne_eq, Decidable.not_not] at hstack hlocals
  have hl := countKnown_zipWith_le f.locals.toList g.locals.toList
  have hs := countKnown_zipWith_le f.stack g.stack
  simp only [Frame.known, Frame.join, Array.toList_zipWith]
  by_cases h1 : List.zipWith Slot.merge f.locals.toList g.locals.toList = f.locals.toList
  · by_cases h2 : List.zipWith Slot.merge f.stack g.stack = f.stack
    · refine absurd ?_ hne
      have : Array.zipWith Slot.merge f.locals g.locals = f.locals := by
        apply Array.toList_inj.mp
        rw [Array.toList_zipWith, h1]
      simp [Frame.join, this, h2]
    · have := countKnown_zipWith_lt hstack h2
      omega
  · have := countKnown_zipWith_lt (by simpa using hlocals) h1
    omega

/-! ## The state -/

/-- **The state of the analysis**: the frame before each instruction that has been reached, and the
positions to visit. -/
structure State where
  frames : Array (Option Frame)
  queue : Worklist Nat

namespace State

/-- The state in which only the first instruction has been reached, with the given frame. -/
def start (size : Nat) (entry : Frame) : State :=
  ⟨(Array.replicate size none).setIfInBounds 0 (some entry), Worklist.empty.push 0⟩

/-- **A frame arrives at a position.** The first frame is kept as it is, a later one is joined with the
one there, and the position has to be visited (again) if that changed anything. -/
def deliver (s : State) (i : Nat) (f : Frame) : Except (Halt Cause) State :=
  if h : i < s.frames.size then
    match s.frames[i] with
    | none => .ok ⟨s.frames.set i (some f), s.queue.push i⟩
    | some old =>
      match old.merge f with
      | .error halt => .error halt
      | .ok new =>
        if new = old then .ok s else .ok ⟨s.frames.set i (some new), s.queue.push i⟩
  else .error (.failed .fallOffEnd)

/-- The total of the weights of a list. -/
def totalOf {α : Type} (weight : α → Nat) : List α → Nat
  | [] => 0
  | a :: l => weight a + totalOf weight l

/-- A total over all positions. -/
def total (weight : Option Frame → Nat) (frames : Array (Option Frame)) : Nat :=
  totalOf weight frames.toList

theorem totalOf_set {α : Type} (weight : α → Nat) (l : List α) (i : Nat) (a : α)
    (h : i < l.length) :
    totalOf weight (l.set i a) + weight l[i] = totalOf weight l + weight a := by
  induction l generalizing i with
  | nil => simp at h
  | cons x l ih =>
    cases i with
    | zero => simp only [List.set_cons_zero, totalOf, List.getElem_cons_zero]; omega
    | succ i =>
      have := ih i (by simpa using h)
      simp only [List.set_cons_succ, totalOf, List.getElem_cons_succ]
      omega

theorem total_set (weight : Option Frame → Nat) (frames : Array (Option Frame)) (i : Nat)
    (a : Option Frame) (h : i < frames.size) :
    total weight (frames.set i a) + weight frames[i] = total weight frames + weight a := by
  have := totalOf_set weight frames.toList i a (by simpa using h)
  simpa [total] using this

/-- One for a position without a frame. -/
def unsetWeight : Option Frame → Nat
  | none => 1
  | some _ => 0

/-- The slots of a frame that say something. -/
def knownWeight : Option Frame → Nat
  | none => 0
  | some f => f.known

/-- The number of positions without a frame. -/
def unset (s : State) : Nat := total unsetWeight s.frames

/-- The number of slots in all frames that say something. -/
def known (s : State) : Nat := total knownWeight s.frames

/-- What is left to lose, in lexicographic order, becomes less from `s` to `s'`. -/
def Progress (s s' : State) : Prop :=
  s'.unset < s.unset ∨ (s'.unset = s.unset ∧ s'.known < s.known)

theorem Progress.trans {s s' s'' : State} (h : Progress s s') (h' : Progress s' s'') :
    Progress s s'' := by
  unfold Progress at *
  omega

/-- **A delivery changes nothing or makes progress.** -/
theorem deliver_eq_or_progress {s s' : State} {i : Nat} {f : Frame}
    (h : s.deliver i f = .ok s') : s' = s ∨ Progress s s' := by
  unfold deliver at h
  split at h
  · rename_i hi
    split at h
    · rename_i hnone
      simp only [Except.ok.injEq] at h
      subst h
      right; left
      have := total_set unsetWeight s.frames i (some f) hi
      simp only [hnone, unsetWeight] at this
      simp only [unset]
      omega
    · rename_i old hsome
      split at h
      · simp at h
      · rename_i new hmerge
        split at h
        · simp only [Except.ok.injEq] at h
          exact Or.inl h.symm
        · rename_i hne
          simp only [Except.ok.injEq] at h
          subst h
          have hlt := Frame.known_merge_lt hmerge hne
          have h1 := total_set unsetWeight s.frames i (some new) hi
          have h2 := total_set knownWeight s.frames i (some new) hi
          simp only [hsome, unsetWeight] at h1
          simp only [hsome, knownWeight] at h2
          right; right
          simp only [unset, known]
          omega
  · simp at h

end State

end StackMap
