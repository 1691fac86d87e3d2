import Mathlib.Data.List.Nodup
import Std.Data.HashSet.Lemmas
import StackMap.Worklist

/-!
# `Proofs.Worklist`: worklists are queues without duplicates

A worklist keeps its elements twice, in two lists and in a set. `Worklist.Valid` says that the two agree
and that no element waits twice. `push` and `pop?` keep this, and on the list view `toList` they are the
operations of a queue: an element that does not wait goes to the end, and the first element leaves.
-/

namespace StackMap.Worklist

variable {α : Type} [BEq α] [Hashable α]

/-- **Validity**: the set holds exactly the elements of the lists, and each of them waits once. -/
structure Valid (w : Worklist α) : Prop where
  nodup : w.toList.Nodup
  mem_pending : ∀ a, a ∈ w.pending ↔ a ∈ w.toList

theorem valid_empty : (empty : Worklist α).Valid := by
  refine ⟨List.nodup_nil, fun a => ?_⟩
  simp [empty, toList]

/-! ## Queueing an element -/

section Push

variable {w : Worklist α} {a : α}

/-- What the set is asked is whether the element waits. -/
theorem contains_pending_iff (hw : w.Valid) : w.pending.contains a = true ↔ a ∈ w.toList := by
  rw [Std.HashSet.contains_iff_mem, hw.mem_pending]

theorem adds_iff (hw : w.Valid) : w.adds a = true ↔ a ∉ w.toList := by
  unfold adds
  rw [Bool.not_eq_true', ← contains_pending_iff hw, Bool.not_eq_true]

/-- An element that waits already is not queued again. -/
theorem push_of_mem (hw : w.Valid) (ha : a ∈ w.toList) : w.push a = w := by
  unfold push
  rw [if_pos ((contains_pending_iff hw).mpr ha)]

/-- A new element goes to the end. -/
theorem toList_push_of_not_mem (hw : w.Valid) (ha : a ∉ w.toList) :
    (w.push a).toList = w.toList ++ [a] := by
  unfold push
  rw [if_neg (mt (contains_pending_iff hw).mp ha)]
  simp [toList]

/-- **Queueing keeps the elements that wait, in order, and adds the new one.** -/
theorem mem_toList_push (hw : w.Valid) {b : α} : b ∈ (w.push a).toList ↔ b ∈ w.toList ∨ b = a := by
  by_cases ha : a ∈ w.toList
  · rw [push_of_mem hw ha]
    exact ⟨Or.inl, fun h => h.elim id (fun hb => hb ▸ ha)⟩
  · rw [toList_push_of_not_mem hw ha, List.mem_append, List.mem_singleton]

theorem Valid.push [LawfulBEq α] [LawfulHashable α] (hw : w.Valid) (a : α) : (w.push a).Valid := by
  by_cases ha : a ∈ w.toList
  · rw [push_of_mem hw ha]
    exact hw
  · refine ⟨?_, fun b => ?_⟩
    · rw [toList_push_of_not_mem hw ha]
      exact hw.nodup.append (List.nodup_singleton a) (by simpa using ha)
    · rw [mem_toList_push hw]
      unfold Worklist.push
      rw [if_neg (mt (contains_pending_iff hw).mp ha)]
      show b ∈ w.pending.insert a ↔ _
      rw [Std.HashSet.mem_insert, beq_iff_eq, hw.mem_pending b, or_comm, eq_comm]

end Push

/-! ## Taking the first element -/

/-- The first element leaves, and the others keep their order. -/
theorem toList_pop? {w w' : Worklist α} {a : α} (h : w.pop? = some (a, w')) :
    w.toList = a :: w'.toList := by
  unfold pop? at h
  split at h
  · rename_i front hfront
    simp only [Option.some.injEq, Prod.mk.injEq] at h
    obtain ⟨rfl, rfl⟩ := h
    simp [toList, hfront]
  · rename_i hfront
    -- The front is used up: the back is turned over.
    split at h
    · rename_i front hback
      simp only [Option.some.injEq, Prod.mk.injEq] at h
      obtain ⟨rfl, rfl⟩ := h
      simp [toList, hfront, hback]
    · simp at h

theorem pending_pop? {w w' : Worklist α} {a : α} (h : w.pop? = some (a, w')) :
    w'.pending = w.pending.erase a := by
  unfold pop? at h
  split at h
  · simp only [Option.some.injEq, Prod.mk.injEq] at h
    obtain ⟨rfl, rfl⟩ := h
    rfl
  · split at h
    · simp only [Option.some.injEq, Prod.mk.injEq] at h
      obtain ⟨rfl, rfl⟩ := h
      rfl
    · simp at h

/-- Only the worklist without elements has none to give. -/
theorem pop?_eq_none_iff {w : Worklist α} : w.pop? = none ↔ w.toList = [] := by
  unfold pop? toList
  split
  · rename_i hfront
    simp [hfront]
  · rename_i hfront
    split
    · rename_i hback
      simp [hfront, hback]
    · rename_i hback
      simp [hfront, hback]

theorem pop?_of_toList_eq_cons {w : Worklist α} {a : α} {l : List α} (h : w.toList = a :: l) :
    ∃ w', w.pop? = some (a, w') ∧ w'.toList = l := by
  cases hpop : w.pop? with
  | none =>
    rw [pop?_eq_none_iff.mp hpop] at h
    exact absurd h (by simp)
  | some p =>
    obtain ⟨b, w'⟩ := p
    rw [toList_pop? hpop] at h
    injection h with hab hl
    exact ⟨w', by rw [hab], hl⟩

theorem Valid.pop? [LawfulBEq α] [LawfulHashable α] {w w' : Worklist α} {a : α} (hw : w.Valid)
    (h : w.pop? = some (a, w')) : w'.Valid ∧ a ∉ w'.toList := by
  have hl := toList_pop? h
  have hnodup := hw.nodup
  rw [hl, List.nodup_cons] at hnodup
  refine ⟨⟨hnodup.2, fun b => ?_⟩, hnodup.1⟩
  rw [pending_pop? h, Std.HashSet.mem_erase, hw.mem_pending b, hl, List.mem_cons,
    beq_eq_false_iff_ne]
  constructor
  · rintro ⟨hne, rfl | hb⟩
    · exact absurd rfl hne
    · exact hb
  · intro hb
    refine ⟨?_, Or.inr hb⟩
    rintro rfl
    exact hnodup.1 hb

end StackMap.Worklist
