import Mathlib.Data.List.Forall2
import StackMap.Frame.Basic

/-!
# `Proofs.Frame.Order`: how much frames say

A slot is below another one if that one is equal or says nothing. Frames of one shape are ordered slot by
slot. In this order `merge` is a least upper bound: the result is above both frames and below every frame
that is above both, and a merge leaves a frame alone exactly if the other one is below it.

## Contents

* `Slot.Below`, `Frame.Below`: the order.
* `Frame.merge_eq_self_iff`, `Frame.below_of_merge`, `Frame.merge_below`: merging and the order.
* `Frame.Peer`: frames of one method.
* `Frame.Each`, `Frame.Filled`: properties of all slots, and that none is absent.
-/

namespace StackMap

/-! ## Slots -/

namespace Slot

/-- **`b` says no more than `a`**: it is equal to it, or nothing is known of it. -/
def Below (a b : Slot) : Prop := b = some .uninit ∨ b = a

theorem Below.refl (a : Slot) : Below a a := Or.inr rfl

theorem below_uninit (a : Slot) : Below a (some .uninit) := Or.inl rfl

theorem Below.trans {a b c : Slot} (hab : Below a b) (hbc : Below b c) : Below a c := by
  rcases hbc with hc | hc
  · exact Or.inl hc
  · rw [hc]
    exact hab

/-- A slot that says something has only itself below it. -/
theorem Below.eq_of_ne {a b : Slot} (h : Below a b) (hb : b ≠ some .uninit) : a = b := by
  rcases h with h | h
  · exact absurd h hb
  · exact h.symm

theorem below_merge_left (a b : Slot) : Below a (merge a b) := by
  unfold merge
  split
  · exact Below.refl a
  · exact below_uninit a

theorem below_merge_right (a b : Slot) : Below b (merge a b) := by
  unfold merge
  split
  · rename_i hab
    rw [hab]
    exact Below.refl b
  · exact below_uninit b

theorem merge_below {a b c : Slot} (ha : Below a c) (hb : Below b c) : Below (merge a b) c := by
  by_cases hc : c = some .uninit
  · exact Or.inl hc
  · -- Both slots are the bound itself.
    rw [ha.eq_of_ne hc, hb.eq_of_ne hc]
    unfold merge
    rw [if_pos rfl]
    exact Below.refl c

/-- A merge leaves a slot alone exactly if the other one is below it. -/
theorem merge_eq_self_iff {a b : Slot} : merge a b = a ↔ Below b a := by
  constructor
  · intro h
    rw [← h]
    exact below_merge_right a b
  · rintro (h | h)
    · rw [h]
      unfold merge
      split <;> rfl
    · rw [h]
      unfold merge
      rw [if_pos rfl]

end Slot

/-! ## Lists of slots -/

theorem forall₂_below_refl (l : List Slot) : List.Forall₂ Slot.Below l l :=
  List.forall₂_same.mpr (fun a _ => Slot.Below.refl a)

theorem forall₂_below_trans {l l' l'' : List Slot} (h : List.Forall₂ Slot.Below l l')
    (h' : List.Forall₂ Slot.Below l' l'') : List.Forall₂ Slot.Below l l'' := by
  induction h generalizing l'' with
  | nil => exact h'
  | cons hab _ ih =>
    cases h' with
    | cons hbc hrest => exact List.Forall₂.cons (hab.trans hbc) (ih hrest)

/-- The slot-wise join is above its first list if the second one is long enough. -/
theorem forall₂_below_zipWith_left {l l' : List Slot} (hlen : l.length = l'.length) :
    List.Forall₂ Slot.Below l (List.zipWith Slot.merge l l') := by
  induction l generalizing l' with
  | nil => simp
  | cons a l ih =>
    cases l' with
    | nil => simp at hlen
    | cons b l' => exact List.Forall₂.cons (Slot.below_merge_left a b) (ih (by simpa using hlen))

theorem forall₂_below_zipWith_right {l l' : List Slot} (hlen : l.length = l'.length) :
    List.Forall₂ Slot.Below l' (List.zipWith Slot.merge l l') := by
  induction l generalizing l' with
  | nil =>
    cases l' with
    | nil => simp
    | cons b l' => simp at hlen
  | cons a l ih =>
    cases l' with
    | nil => simp at hlen
    | cons b l' => exact List.Forall₂.cons (Slot.below_merge_right a b) (ih (by simpa using hlen))

theorem forall₂_zipWith_below {l l' u : List Slot} (h : List.Forall₂ Slot.Below l u)
    (h' : List.Forall₂ Slot.Below l' u) :
    List.Forall₂ Slot.Below (List.zipWith Slot.merge l l') u := by
  induction h generalizing l' with
  | nil => simp
  | cons ha _ ih =>
    cases h' with
    | cons hb hrest => exact List.Forall₂.cons (Slot.merge_below ha hb) (ih hrest)

/-- The join gives back its first list exactly if the second one is below it. -/
theorem zipWith_merge_eq_self_iff {l l' : List Slot} (hlen : l.length = l'.length) :
    List.zipWith Slot.merge l l' = l ↔ List.Forall₂ Slot.Below l' l := by
  constructor
  · intro h
    have := forall₂_below_zipWith_right hlen
    rwa [h] at this
  · intro h
    induction h with
    | nil => rfl
    | cons hba _ ih =>
      rw [List.zipWith_cons_cons, Slot.merge_eq_self_iff.mpr hba, ih (by simpa using hlen)]

/-- The order on arrays of slots, read by position. -/
theorem forall₂_toList_iff {a b : Array Slot} :
    List.Forall₂ Slot.Below a.toList b.toList ↔
      a.size = b.size ∧ ∀ (k : Nat) (v w : Slot), a[k]? = some v → b[k]? = some w → v.Below w := by
  rw [List.forall₂_iff_get]
  constructor
  · rintro ⟨hlen, h⟩
    refine ⟨by simpa using hlen, fun k v w hv hw => ?_⟩
    obtain ⟨hka, rfl⟩ := Array.getElem?_eq_some_iff.mp hv
    obtain ⟨hkb, rfl⟩ := Array.getElem?_eq_some_iff.mp hw
    exact h k hka hkb
  · rintro ⟨hlen, h⟩
    exact ⟨by simpa using hlen, fun k hka hkb =>
      h k _ _ (Array.getElem?_eq_getElem hka) (Array.getElem?_eq_getElem hkb)⟩

/-- Entries at the same place are in order. -/
theorem forall₂_below_getElem? {l l' : List Slot} (h : List.Forall₂ Slot.Below l l') (i : Nat) :
    Slot.Below l[i]?.join l'[i]?.join := by
  induction h generalizing i with
  | nil => exact Slot.Below.refl _
  | cons hab _ ih =>
    cases i with
    | zero => exact hab
    | succ i => exact ih i

theorem forall₂_below_set {l l' : List Slot} (h : List.Forall₂ Slot.Below l l') (i : Nat)
    (v : Slot) : List.Forall₂ Slot.Below (l.set i v) (l'.set i v) := by
  induction h generalizing i with
  | nil => exact List.Forall₂.nil
  | cons hab hrest ih =>
    cases i with
    | zero => exact List.Forall₂.cons (Slot.Below.refl v) hrest
    | succ i => exact List.Forall₂.cons hab (ih i)

/-! ## Frames -/

namespace Frame

/-- **`g` says no more than `f`**, slot by slot. The two have as many local variables and entries on
their stacks. -/
structure Below (f g : Frame) : Prop where
  locals : List.Forall₂ Slot.Below f.locals.toList g.locals.toList
  stack : List.Forall₂ Slot.Below f.stack g.stack

theorem Below.refl (f : Frame) : Below f f := ⟨forall₂_below_refl _, forall₂_below_refl _⟩

theorem Below.trans {f g h : Frame} (hfg : Below f g) (hgh : Below g h) : Below f h :=
  ⟨forall₂_below_trans hfg.locals hgh.locals, forall₂_below_trans hfg.stack hgh.stack⟩

theorem Below.height {f g : Frame} (h : Below f g) : f.stack.length = g.stack.length :=
  h.stack.length_eq

theorem Below.count {f g : Frame} (h : Below f g) : f.locals.size = g.locals.size := by
  simpa using h.locals.length_eq

/-- What a merge needs and what it gives. -/
theorem merge_eq_ok_iff {f g h : Frame} :
    f.merge g = .ok h ↔
      f.stack.length = g.stack.length ∧ f.locals.size = g.locals.size ∧ h = f.join g := by
  unfold merge
  by_cases hs : f.stack.length = g.stack.length
  · by_cases hl : f.locals.size = g.locals.size
    · simp only [hs, hl, ne_eq, not_true_eq_false, if_false, true_and, Except.ok.injEq]
      exact eq_comm
    · simp [hs, hl]
  · simp [hs]

/-- **The result of a merge is above both frames.** -/
theorem below_of_merge {f g h : Frame} (hm : f.merge g = .ok h) : Below f h ∧ Below g h := by
  obtain ⟨hs, hl, rfl⟩ := merge_eq_ok_iff.mp hm
  have hl' : f.locals.toList.length = g.locals.toList.length := by simpa using hl
  refine ⟨⟨?_, forall₂_below_zipWith_left hs⟩, ⟨?_, forall₂_below_zipWith_right hs⟩⟩
  · rw [join, Array.toList_zipWith]
    exact forall₂_below_zipWith_left hl'
  · rw [join, Array.toList_zipWith]
    exact forall₂_below_zipWith_right hl'

/-- **Frames below a common one can be merged, and the result is below it too.** -/
theorem merge_below {f g u : Frame} (hf : Below f u) (hg : Below g u) :
    ∃ h, f.merge g = .ok h ∧ Below h u := by
  refine ⟨f.join g, merge_eq_ok_iff.mpr ⟨?_, ?_, rfl⟩, ⟨?_, forall₂_zipWith_below hf.stack hg.stack⟩⟩
  · rw [hf.height, hg.height]
  · rw [hf.count, hg.count]
  · rw [join, Array.toList_zipWith]
    exact forall₂_zipWith_below hf.locals hg.locals

/-- **A merge leaves a frame alone exactly if the other one is below it.** -/
theorem merge_eq_self_iff {f g : Frame} : g.merge f = .ok g ↔ Below f g := by
  constructor
  · exact fun h => (below_of_merge h).2
  · intro h
    refine merge_eq_ok_iff.mpr ⟨h.height.symm, h.count.symm, ?_⟩
    have hl : Array.zipWith Slot.merge g.locals f.locals = g.locals := by
      apply Array.toList_inj.mp
      rw [Array.toList_zipWith]
      exact (zipWith_merge_eq_self_iff h.locals.length_eq.symm).mpr h.locals
    have hs : List.zipWith Slot.merge g.stack f.stack = g.stack :=
      (zipWith_merge_eq_self_iff h.stack.length_eq.symm).mpr h.stack
    rw [join, hl, hs]

/-! ## Frames of one method -/

/-- **Frames of one method** have as many local variables, the same bound on the stack and the same
returned value. -/
structure Peer (f g : Frame) : Prop where
  locals : f.locals.size = g.locals.size
  maxStack : f.maxStack = g.maxStack
  result : f.result = g.result

theorem Peer.refl (f : Frame) : f.Peer f := ⟨rfl, rfl, rfl⟩

theorem Peer.trans {f g h : Frame} (hfg : f.Peer g) (hgh : g.Peer h) : f.Peer h :=
  ⟨hfg.locals.trans hgh.locals, hfg.maxStack.trans hgh.maxStack, hfg.result.trans hgh.result⟩

theorem Peer.symm {f g : Frame} (h : f.Peer g) : g.Peer f :=
  ⟨h.locals.symm, h.maxStack.symm, h.result.symm⟩

theorem peer_of_merge {f g h : Frame} (hm : f.merge g = .ok h) : f.Peer h := by
  have hcount := (below_of_merge hm).1.count
  obtain ⟨-, -, rfl⟩ := merge_eq_ok_iff.mp hm
  exact ⟨hcount, rfl, rfl⟩

/-! ## Properties of all slots -/

/-- All slots of a frame have a property. -/
structure Each (S : Slot → Prop) (f : Frame) : Prop where
  locals : ∀ v ∈ f.locals, S v
  stack : ∀ v ∈ f.stack, S v

/-- **No slot is absent**: every local variable and every entry of the stack holds a value. -/
structure Filled (f : Frame) : Prop where
  locals : ∀ v ∈ f.locals, v.isSome
  stack : ∀ v ∈ f.stack, v.isSome

end Frame

/-- What the slots of a list have, those above have as well, if it holds where nothing is known. -/
theorem forall_of_forall₂_below {S : Slot → Prop} (huninit : S (some .uninit)) {l l' : List Slot}
    (h : List.Forall₂ Slot.Below l l') (hl : ∀ v ∈ l, S v) : ∀ v ∈ l', S v := by
  induction h with
  | nil => exact hl
  | cons hab _ ih =>
    rw [List.forall_mem_cons] at hl ⊢
    refine ⟨?_, ih hl.2⟩
    rcases hab with rfl | rfl
    · exact huninit
    · exact hl.1

/-- Where the upper list holds a value, so does the lower one if no entry of it is absent. -/
theorem isSome_getElem?_of_below {l l' : List Slot} (h : List.Forall₂ Slot.Below l l')
    (hl : ∀ v ∈ l, v.isSome) {i : Nat} (hi : l'[i]?.join.isSome) : l[i]?.join.isSome := by
  cases hget : l[i]? with
  | some v => exact hl v (List.mem_of_getElem? hget)
  | none =>
    rw [List.getElem?_eq_none_iff, h.length_eq, ← List.getElem?_eq_none_iff] at hget
    rw [hget] at hi
    exact absurd hi (by simp)

/-- What all slots of a frame have, those of a frame above have as well. -/
theorem Frame.Each.of_below {S : Slot → Prop} {f g : Frame} (hf : f.Each S)
    (huninit : S (some .uninit)) (h : f.Below g) : g.Each S := by
  refine ⟨fun v hv => ?_, forall_of_forall₂_below huninit h.stack hf.stack⟩
  refine forall_of_forall₂_below huninit h.locals (fun w hw => hf.locals w ?_) v ?_
  · exact Array.mem_toList_iff.mp hw
  · exact Array.mem_toList_iff.mpr hv

/-- Filled frames have only filled frames above them. -/
theorem Frame.Filled.of_below {f g : Frame} (hf : f.Filled) (h : f.Below g) : g.Filled := by
  have heach : f.Each fun v => v.isSome := ⟨hf.locals, hf.stack⟩
  have hg := heach.of_below rfl h
  exact ⟨hg.locals, hg.stack⟩

end StackMap
