import StackMap.Proofs.Flow.Control
import StackMap.Proofs.Frame.Proper

/-!
# `Proofs.Flow.Proper`: the frames of a method are well-formed

Every frame of a method has a slot for each local variable that the method declares, a stack within the
bound that it declares, and a proper value in each slot. The first frame is of this form, since no
parameter is `void`; instructions keep it (`Frame.Executes.proper`, `Frame.Executes.bounded`), the frame of
an exception has one reference on its stack, and a join leaves slots as they are or forgets them.

## Contents

* `Frame.Formed`: the form of the frames of a method.
* `formed_entryFrame`, `formed_of_outgoing`, `Frame.Formed.merge`: the first frame, visits and joins.
* `frames_well_formed`: the frames of a method.
-/

namespace StackMap

/-- **The form of the frames of a method.** -/
structure Frame.Formed (m : Method) (f : Frame) : Prop where
  count : (f.locals.size : Int) = m.maxLocals
  bound : (f.maxStack : Int) = m.maxStack
  height : f.Bounded
  slots : f.Each Slot.Proper

theorem Frame.Formed.merge {m : Method} {old f new : Frame} (hold : old.Formed m)
    (hm : old.merge f = .ok new) : new.Formed m := by
  have hbelow := (below_of_merge hm).1
  have hpeer := peer_of_merge hm
  refine ⟨hpeer.locals ▸ hold.count, hpeer.maxStack ▸ hold.bound, ?_, hold.slots.of_below .uninit hbelow⟩
  have hheight := hold.height
  unfold Bounded at hheight ⊢
  rwa [← hpeer.maxStack, ← hbelow.height]

/-! ## The first frame -/

/-- The types of the parameters fit their sorts. -/
theorem Ty.headed_of_mem_arguments {t : Ty} {arguments : List Ty}
    (h : t.arguments = .ok arguments) : ∀ a ∈ arguments, a.Headed := by
  intro a ha
  obtain ⟨-, -, -, -, -, field, -, hfield⟩ := ofField_of_mem_arguments h ha
  exact headed_of_ofField hfield

namespace Flow

variable {owner : String} {m : Method} {entry : Frame} {g : Graph}

theorem proper_of_mem_parameterSlots {t : Ty} {slots : List Slot} (h : parameterSlots t = .ok slots)
    (hvoid : t ≠ .void) (ht : t.Headed) : ∀ v ∈ slots, v.Proper := by
  obtain ⟨v, hv, h⟩ := bind_eq_ok_iff.mp h
  have hproper := ht.proper hv (isSome_of_valueOf hv hvoid)
  cases h
  split
  · rw [List.forall_mem_cons, List.forall_mem_singleton]
    exact ⟨hproper, .uninit⟩
  · exact List.forall_mem_singleton.mpr hproper

theorem proper_of_mem_receiverSlots : ∀ v ∈ receiverSlots owner m, v.Proper := by
  unfold receiverSlots
  split
  · exact fun v hv => absurd hv List.not_mem_nil
  · exact List.forall_mem_singleton.mpr (proper_ofClassName owner)

/-- **The first frame is well-formed.** -/
theorem formed_entryFrame (h : entryFrame owner m = .ok entry) : entry.Formed m := by
  have hsize := size_entryFrame h
  obtain ⟨hlocals, hstack, t, arguments, parameters, returned, result, -, harguments, hparameters, -, -,
    -, rfl⟩ := entryFrame_layout h
  refine ⟨by rw [hsize, Int.toNat_of_nonneg hlocals], Int.toNat_of_nonneg hstack, fun _ => Nat.zero_le _,
    fun v hv => ?_, fun v hv => absurd hv List.not_mem_nil⟩
  rw [List.mem_toArray, List.mem_append, List.mem_append] at hv
  rcases hv with (hv | hv) | hv
  · exact proper_of_mem_receiverSlots v hv
  · obtain ⟨slots, hslots, hv⟩ := List.mem_flatten.mp hv
    obtain ⟨a, ha, hslots⟩ := exists_of_mem_mapM hparameters hslots
    exact proper_of_mem_parameterSlots hslots (Ty.ne_void_of_mem_arguments harguments a ha)
      (Ty.headed_of_mem_arguments harguments a ha) v hv
  · rw [List.eq_of_mem_replicate hv]
    exact .uninit

/-! ## Visits -/

/-- What a handler catches is a reference. -/
theorem proper_caught (hg : Graph.ofMethod m = .ok g) {i : Nat} {handler : Handler}
    (h : handler ∈ g.handlersAt i) : Slot.Proper (some handler.caught) := by
  obtain ⟨block, -, first, last, -, -, -, hcaught, -⟩ := (Graph.mem_handlersAt_iff hg).mp h
  rw [hcaught]
  exact proper_ofClassName _

/-- **Visits send well-formed frames.** -/
theorem formed_of_outgoing (hg : Graph.ofMethod m = .ok g) {i j : Nat} {insn : Insn} {f f' : Frame}
    (hf : f.Formed m) (h : .ok (j, f') ∈ outgoing g i insn f) : f'.Formed m := by
  have hpeer := peer_of_outgoing h
  refine ⟨hpeer.locals ▸ hf.count, hpeer.maxStack ▸ hf.bound, ?_, ?_⟩
  all_goals obtain ⟨after, hexec, ⟨-, rfl⟩ | ⟨handler, hh, -, rfl⟩⟩ := mem_outgoing_iff.mp h
  · exact (Frame.execute_eq_ok_iff.mp hexec).bounded hf.height
  · -- The exception is alone on the stack.
    exact fun hmax => hmax
  · exact (Frame.execute_eq_ok_iff.mp hexec).proper hf.slots
  · exact ⟨hf.slots.locals, List.forall_mem_singleton.mpr (proper_caught hg hh)⟩

/-! ## The frames of a method -/

/-- **The frames of a method are well-formed**: as many local variables as the method declares, no more
entries on the stack than it allows, and in each slot a value of a category, a return address, a reference
to an object or an array, or nothing known. -/
theorem frames_well_formed {frames : Array (Option Frame)} {i : Nat} {f : Frame}
    (h : analyze owner m = .ok frames) (hf : frames[i]? = some (some f)) :
    (f.locals.size : Int) = m.maxLocals ∧
      (0 < m.maxStack → (f.stack.length : Int) ≤ m.maxStack) ∧
      ∀ v, v ∈ f.locals ∨ v ∈ f.stack → v.Proper := by
  have hcode : m.hasCode := by
    by_contra hnot
    unfold analyze at h
    rw [if_pos (by simpa using hnot)] at h
    cases h
    exact nomatch hf
  obtain ⟨g, entry, visits, k, s, hg, hentry, hsteps, -, rfl⟩ := exists_steps_of_analyze hcode h
  have hall := hsteps.all (P := fun _ f => f.Formed m)
    (fun _ _ _ _ _ _ hf hp => formed_of_outgoing hg hf hp)
    (fun _ _ _ _ hold _ hm => hold.merge hm)
    (all_start hcode (formed_entryFrame hentry))
  have hformed := hall.frames i f hf
  refine ⟨hformed.count, fun hpos => ?_, ?_⟩
  · have hbound := hformed.bound
    have hheight := hformed.height (by omega)
    omega
  · rintro v (hv | hv)
    · exact hformed.slots.locals v hv
    · exact hformed.slots.stack v hv

/-- The handler finds the exception on its stack, which has room for one value. -/
theorem frames_well_formed_countdown :
    analyze "C" Countdown.method = .ok Countdown.frames ∧
      Countdown.frames[7]? = some (some (Countdown.frame .uninit [some Countdown.throwable])) ∧
      Slot.Proper (some Countdown.throwable) :=
  ⟨Countdown.analyze_eq, rfl,
    (frames_well_formed Countdown.analyze_eq (i := 7) rfl).2.2 _ (Or.inr (List.mem_singleton_self _))⟩

end Flow

end StackMap
