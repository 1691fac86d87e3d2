import StackMap.Proofs.Flow.Reach
import StackMap.Proofs.Flow.Replay

/-!
# `Proofs.Flow.WideLocals`: the second halves of wide values

A `long` or `double` in a local variable takes the next one too, of which nothing is known then. The first
frame is laid out so, a store keeps it so on both sides of what it writes, and a join can only lose a wide
value, not uncover one. An increment is the exception: it writes its variable and looks at no other, so it
can put an `int` behind a `long`. These are the only second halves of which the frames of a method know
anything.

## Contents

* `Frame.WideAt`: a variable holds a value of size two.
* `Frame.Halved`: what follows such a variable.
* `second_half_of_wide`: the second halves in the frames of a method.
* `SplitLong`, `increment_splits_long`: a method whose frames know a second half.
-/

namespace StackMap

/-- A local variable holds a value of size two. -/
def Frame.WideAt (f : Frame) (k : Nat) : Prop := f.locals[k]?.bind Slot.width = some 2

instance (f : Frame) (k : Nat) : Decidable (f.WideAt k) :=
  inferInstanceAs (Decidable (f.locals[k]?.bind Slot.width = some 2))

/-- **The variable behind a wide value exists, and nothing is known of it**, unless `touched` holds. -/
def Frame.Halved (touched : Prop) (k : Nat) (f : Frame) : Prop :=
  f.WideAt k → ∃ w, f.locals[k + 1]? = some w ∧ (w = some .uninit ∨ touched)

/-! ## Lists of slots -/

/-- Every wide value of a list is followed by a slot of which nothing is known. -/
def Paired (slots : List Slot) : Prop :=
  ∀ k, slots[k]?.bind Slot.width = some 2 → slots[k + 1]? = some (some .uninit)

theorem Paired.append {a b : List Slot} (ha : Paired a) (hb : Paired b) : Paired (a ++ b) := by
  intro k hk
  by_cases hlt : k < a.length
  · -- The second half is in the first list as well, since it is there at all.
    rw [List.getElem?_append_left hlt] at hk
    have hnext := ha k hk
    have hlt' : k + 1 < a.length := (List.getElem?_eq_some_iff.mp hnext).1
    rw [List.getElem?_append_left hlt']
    exact hnext
  · have hle : a.length ≤ k := Nat.not_lt.mp hlt
    rw [List.getElem?_append_right hle] at hk
    rw [List.getElem?_append_right (by omega), show k + 1 - a.length = k - a.length + 1 by omega]
    exact hb _ hk

theorem paired_nil : Paired [] := fun _ hk => nomatch hk

theorem Paired.flatten {lists : List (List Slot)} (h : ∀ l ∈ lists, Paired l) :
    Paired lists.flatten := by
  induction lists with
  | nil => exact paired_nil
  | cons l lists ih =>
    rw [List.forall_mem_cons] at h
    exact h.1.append (ih h.2)

/-- A list without wide values is paired. -/
theorem paired_of_narrow {slots : List Slot} (h : ∀ v ∈ slots, v.width ≠ some 2) : Paired slots := by
  intro k hk
  obtain ⟨v, hv, hw⟩ := Option.bind_eq_some_iff.mp hk
  exact absurd hw (h v (List.mem_of_getElem? hv))

namespace Flow

variable {owner : String} {m : Method} {entry : Frame}

/-! ## The first frame -/

/-- The value of a type has the size of the type. -/
theorem width_of_valueOf {t : Ty} {v : Slot} (h : Transfer.valueOf t = .ok v) :
    v.width = some 2 ↔ t.slots = 2 := by
  cases t <;> cases h <;> simp [Slot.width, Value.size, Ty.slots]

theorem paired_parameterSlots {t : Ty} {slots : List Slot} (h : parameterSlots t = .ok slots) :
    Paired slots := by
  obtain ⟨v, hv, h⟩ := bind_eq_ok_iff.mp h
  cases h
  split
  · intro k hk
    match k with
    | 0 => rfl
    | 1 => exact nomatch hk
    | k + 2 => exact nomatch hk
  · rename_i hslots
    refine paired_of_narrow (List.forall_mem_singleton.mpr ?_)
    exact fun hw => hslots ((width_of_valueOf hv).mp hw)

/-- The value of a class takes one variable. -/
theorem width_ofClassName (name : String) : Slot.width (some (Value.ofClassName name)) = some 1 := by
  unfold Value.ofClassName
  split <;> rfl

/-- **The first frame leaves room for second halves.** -/
theorem halved_entryFrame (h : entryFrame owner m = .ok entry) (touched : Prop) (k : Nat) :
    entry.Halved touched k := by
  obtain ⟨-, -, t, arguments, parameters, returned, result, -, -, hparameters, -, -, -, rfl⟩ :=
    entryFrame_layout h
  have hreceiver : Paired (receiverSlots owner m) := by
    unfold receiverSlots
    split
    · exact paired_nil
    · refine paired_of_narrow (List.forall_mem_singleton.mpr ?_)
      rw [width_ofClassName]
      decide
  have hparams : Paired parameters.flatten := by
    refine Paired.flatten fun slots hslots => ?_
    obtain ⟨a, -, ha⟩ := exists_of_mem_mapM hparameters hslots
    exact paired_parameterSlots ha
  have hrest : ∀ n, Paired (List.replicate n (some .uninit)) := by
    intro n
    refine paired_of_narrow fun v hv => ?_
    rw [List.eq_of_mem_replicate hv]
    decide
  intro hwide
  have hnext := ((hreceiver.append hparams).append (hrest _)) k
    (by simpa only [Frame.WideAt, List.getElem?_toArray] using hwide)
  exact ⟨_, by rw [List.getElem?_toArray, hnext], Or.inl rfl⟩

end Flow

/-! ## Joins and instructions -/

namespace Frame

variable {f f' : Frame} {k : Nat} {touched : Prop}

/-- What is wide above is the same value below. -/
theorem Below.getElem?_of_wideAt (h : f.Below f') (hwide : f'.WideAt k) :
    f.locals[k]? = f'.locals[k]? := by
  obtain ⟨hsize, hbelow⟩ := forall₂_toList_iff.mp h.locals
  obtain ⟨w, hw, hwidth⟩ := Option.bind_eq_some_iff.mp hwide
  obtain ⟨hk, -⟩ := Array.getElem?_eq_some_iff.mp hw
  have hv := Array.getElem?_eq_getElem (hsize ▸ hk : k < f.locals.size)
  rcases hbelow k _ w hv hw with rfl | rfl
  · exact nomatch hwidth
  · rw [hv, hw]

/-- **Joins keep second halves.** -/
theorem Halved.of_below (hf : f.Halved touched k) (h : f.Below f') : f'.Halved touched k := by
  intro hwide
  obtain ⟨hsize, hbelow⟩ := forall₂_toList_iff.mp h.locals
  have hwide' : f.WideAt k := by
    unfold WideAt
    rw [h.getElem?_of_wideAt hwide]
    exact hwide
  obtain ⟨w, hw, hknown⟩ := hf hwide'
  obtain ⟨hk, -⟩ := Array.getElem?_eq_some_iff.mp hw
  have hw' := Array.getElem?_eq_getElem (hsize ▸ hk : k + 1 < f'.locals.size)
  refine ⟨_, hw', ?_⟩
  rcases hbelow (k + 1) w _ hw hw' with heq | heq
  · exact Or.inl heq
  · rw [heq]
    exact hknown

/-- **A store keeps second halves**: it clears the one behind what it writes and forgets the value whose
second half it overwrites. -/
theorem halved_storedLocals {n : Nat} {v : Slot} (hst : Storable f.locals n v)
    (hf : f.Halved touched k) (hwide : (storedLocals f.locals n v)[k]?.bind Slot.width = some 2) :
    ∃ w, (storedLocals f.locals n v)[k + 1]? = some w ∧ (w = some .uninit ∨ touched) := by
  rw [getElem?_storedLocals, Option.bind_map] at hwide
  obtain ⟨old, hold, hwidth⟩ := Option.bind_eq_some_iff.mp hwide
  simp only [Function.comp_apply] at hwidth
  rw [getElem?_storedLocals]
  by_cases hkn : k = n
  · -- The wide value is the one stored.
    subst hkn
    rw [if_pos rfl] at hwidth
    have hnext := Array.getElem?_eq_getElem (hst.next hwidth)
    refine ⟨some .uninit, ?_, Or.inl rfl⟩
    rw [hnext, Option.map_some, if_neg (by omega), if_pos (Or.inl ⟨rfl, hwidth⟩)]
  · rw [if_neg hkn] at hwidth
    split at hwidth
    · exact nomatch hwidth
    -- It was there before, and the store is not to its second half, or it would be lost.
    rename_i hkept
    have hne : k + 1 ≠ n := fun heq => hkept (Or.inr ⟨heq, hwidth⟩)
    have hwide' : f.WideAt k := by
      unfold WideAt
      rw [hold]
      exact hwidth
    obtain ⟨w, hw, hknown⟩ := hf hwide'
    rw [hw, Option.map_some, if_neg hne]
    refine ⟨_, rfl, ?_⟩
    split
    · exact Or.inl rfl
    · exact hknown

/-- **Instructions keep second halves**, if an increment of one counts as touching it. -/
theorem Executes.halved {insn : Insn} (h : f.Executes insn f') (hf : f.Halved touched k)
    (htouched : ∀ amount, insn = .iinc (k + 1 : Nat) amount → f.WideAt k → touched) :
    f'.Halved touched k := by
  obtain ⟨-, hacts, rest, -, -, -, rfl⟩ := h
  cases hacts with
  | @store _ op n v hinsn hst => exact halved_storedLocals hst hf
  | @increment _ n amount hinsn hn =>
    intro hwide
    simp only [WideAt, Array.getElem?_setIfInBounds] at hwide ⊢
    split at hwide
    · -- The variable itself now holds an `int`.
      simp [Slot.width, Value.size] at hwide
    obtain ⟨w, hw, hknown⟩ := hf hwide
    by_cases hnk : n = k + 1
    · subst hnk
      rw [if_pos rfl, if_pos hn]
      exact ⟨_, rfl, Or.inr (htouched amount hinsn hwide)⟩
    · rw [if_neg hnk]
      exact ⟨w, hw, hknown⟩
  | _ => exact hf

end Frame

/-! ## The frames of a method -/

namespace Flow

/-- The method increments the second half of a wide value: an instruction with a frame in which the
variable before the one that it increments is wide. -/
def IncrementsHalf (m : Method) (frames : Array (Option Frame)) (k : Nat) : Prop :=
  ∃ (i : Nat) (f : Frame) (amount : Int), m.insns[i]? = some (.iinc (k + 1 : Nat) amount) ∧
    frames[i]? = some (some f) ∧ f.WideAt k

/-- **Second halves in the frames of a method**: behind every variable that holds a value of size two
there is another one, and nothing is known of it unless the method increments it there. -/
theorem second_half_of_wide {owner : String} {m : Method} {frames : Array (Option Frame)}
    (h : analyze owner m = .ok frames) {i k : Nat} {f : Frame}
    (hf : frames[i]? = some (some f)) (hwide : f.WideAt k) :
    k + 1 < f.locals.size ∧
      (f.locals[k + 1]? = some (some .uninit) ∨ IncrementsHalf m frames k) := by
  by_cases hcode : m.hasCode
  · obtain ⟨g, entry, -, -, -, hg, hentry, -⟩ := exists_steps_of_analyze hcode h
    have hall := forall_frames_of_analyze (P := fun _ f => f.Halved (IncrementsHalf m frames k) k)
      hcode h hg hentry (halved_entryFrame hentry _ k) (fun _ _ _ hf hle => hf.of_below hle) ?_ i f hf
    · obtain ⟨w, hw, hknown⟩ := hall hwide
      refine ⟨(Array.getElem?_eq_some_iff.mp hw).1, hknown.imp_left fun heq => ?_⟩
      rw [hw, heq]
    · intro i insn f j f' hi hf hhalved hsent
      obtain ⟨after, hexec, ⟨-, rfl⟩ | ⟨handler, -, -, rfl⟩⟩ := mem_outgoing_iff.mp hsent
      · refine (Frame.execute_eq_ok_iff.mp hexec).halved hhalved fun amount hinsn hwide => ?_
        exact ⟨i, f, amount, hinsn ▸ hi, hf, hwide⟩
      · exact hhalved
  · -- A method without code has no frames.
    unfold analyze at h
    rw [if_pos (by simpa using hcode)] at h
    cases h
    exact nomatch hf

/-! ## A second half that is incremented -/

namespace SplitLong

/-- The parameter takes both variables, and the increment goes to the second one. -/
def method : Method where
  access := 8
  name := "split"
  desc := "(J)V"
  maxStack := 0
  maxLocals := 2
  insns := #[.iinc 1 1, .plain ⟨0xb1⟩]
  tryCatch := []

def graph : Graph := ⟨method, [], []⟩

def frame (second : Value) : Frame := ⟨#[some .long, some second], [], 0, none⟩

def frames : Array (Option Frame) := #[some (frame .uninit), some (frame .int)]

theorem ofMethod_eq : Graph.ofMethod method = .ok graph := rfl

theorem entryFrame_eq : entryFrame "C" method = .ok (frame .uninit) :=
  eq_ok_of_toOption (by decide +kernel)

theorem analyze_eq : analyze "C" method = .ok frames :=
  analyze_of_replay 4 rfl ofMethod_eq entryFrame_eq (by decide +kernel)

end SplitLong

theorem second_half_of_wide_splitLong :
    analyze "C" SplitLong.method = .ok SplitLong.frames ∧
      SplitLong.frames[1]? = some (some (SplitLong.frame .int)) ∧ (SplitLong.frame .int).WideAt 0 ∧
      0 + 1 < (SplitLong.frame .int).locals.size ∧
      ((SplitLong.frame .int).locals[0 + 1]? = some (some .uninit) ∨
        IncrementsHalf SplitLong.method SplitLong.frames 0) :=
  ⟨SplitLong.analyze_eq, rfl, by decide,
    second_half_of_wide SplitLong.analyze_eq (i := 1) rfl (by decide)⟩

/-- **An increment can put an `int` behind a `long`.** -/
theorem increment_splits_long :
    ¬ ∀ (owner : String) (m : Method) (frames : Array (Option Frame)) (i k : Nat) (f : Frame),
      analyze owner m = .ok frames → frames[i]? = some (some f) → f.WideAt k →
      f.locals[k + 1]? = some (some .uninit) := by
  intro h
  have hknown := h "C" SplitLong.method SplitLong.frames 1 0 (SplitLong.frame .int)
    SplitLong.analyze_eq rfl (by decide)
  exact absurd hknown (by decide)

end Flow

end StackMap
