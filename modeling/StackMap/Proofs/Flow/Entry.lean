import StackMap.Flow.Analysis
import StackMap.Proofs.Desc.Accepted
import StackMap.Proofs.Frame.Order
import StackMap.Proofs.Outcome

/-!
# `Proofs.Flow.Entry`: the frame before the first instruction

The projections of an accepted descriptor succeed, so whether a method has a first frame depends on its
numbers only: they have to be sizes, and the parameters have to fit. No parameter is `void`, so every slot
of the first frame holds a value, be it the one that says nothing.

## Contents

* `Ty.slots_pos_of_mem_arguments`, `Ty.ne_void_of_mem_arguments`: the types of parameters take local
  variables; none is `void`.
* `Flow.EntryOutcome`, `Flow.entryOutcome`: whether there is a first frame, and which.
* `Flow.entryFrame_layout`, `Flow.entryFrame_eq_ok`: the layout and the shape of the first frame.
-/

namespace StackMap

/-! ## Parameters -/

/-- The types of the parameters are read off the field descriptors between the parentheses. -/
theorem Ty.ofField_of_mem_arguments {t : Ty} {arguments : List Ty} (h : t.arguments = .ok arguments)
    {a : Ty} (ha : a ∈ arguments) :
    ∃ offset s fields rest, Desc.fieldTexts offset s = .ok (fields, rest) ∧
      ∃ field ∈ fields, ofField field = .ok a := by
  unfold Ty.arguments at h
  split at h
  · split at h
    · cases h
    · split at h
      · cases h
      · split at h
        · cases h
        · cases h
        · rename_i fields rest hfields
          exact ⟨_, _, fields, rest, hfields, exists_of_mem_mapM h ha⟩
  · cases h

/-- **Every parameter of a method takes a local variable.** -/
theorem Ty.slots_pos_of_mem_arguments {t : Ty} {arguments : List Ty}
    (h : t.arguments = .ok arguments) : ∀ a ∈ arguments, 0 < a.slots := by
  intro a ha
  obtain ⟨offset, s, fields, rest, hfields, field, hmem, hfield⟩ := ofField_of_mem_arguments h ha
  have hgrammar : Desc.IsField field := (Desc.fieldTexts_eq_ok_iff.mp hfields).1 field hmem
  rw [ofField_eq_fieldType (Desc.IsResult.field hgrammar).ne_nil] at hfield
  cases hfield
  exact hgrammar.slots_fieldType_pos

/-- **No parameter of a method is `void`.** -/
theorem Ty.ne_void_of_mem_arguments {t : Ty} {arguments : List Ty}
    (h : t.arguments = .ok arguments) : ∀ a ∈ arguments, a ≠ .void := by
  intro a ha hvoid
  have hpos := slots_pos_of_mem_arguments h a ha
  rw [hvoid] at hpos
  exact absurd hpos (Nat.lt_irrefl 0)

/-! ## The first frame -/

namespace Flow

variable {owner : String} {m : Method} {entry : Frame}

theorem isSome_of_valueOf {t : Ty} {v : Slot} (h : Transfer.valueOf t = .ok v) (ht : t ≠ .void) :
    v.isSome := by
  cases t <;> cases h <;> first | rfl | exact absurd rfl ht

/-- Every slot of a parameter holds a value. -/
theorem isSome_of_mem_parameterSlots {t : Ty} {slots : List Slot}
    (h : parameterSlots t = .ok slots) (ht : t ≠ .void) : ∀ v ∈ slots, v.isSome := by
  obtain ⟨v, hv, h⟩ := bind_eq_ok_iff.mp h
  have hsome := isSome_of_valueOf hv ht
  cases h
  split
  · simpa using hsome
  · simpa using hsome

/-- The slot of the receiver, which a static method does not have. -/
def receiverSlots (owner : String) (m : Method) : List Slot :=
  if m.isStatic then [] else [some (Value.ofClassName owner)]

/-- **What becomes of the first frame.** The descriptor is not that of a method, a number is not a size, the
receiver and the slots of the parameters do not fit, or they stand in front of variables of which nothing
is known. -/
inductive EntryOutcome (owner : String) (m : Method) : Except (Halt AnalysisError) Frame → Prop where
  | descriptor {e : DescriptorError} : m.type = .error e →
      EntryOutcome owner m (.error (.failed (.descriptor e)))
  | negative {d : String} : m.type = .ok (.method d) → m.maxLocals < 0 ∨ m.maxStack < 0 →
      EntryOutcome owner m (.error (.fault .negativeSize))
  | short {d : String} {arguments : List Ty} {parameters : List (List Slot)} :
      m.type = .ok (.method d) → 0 ≤ m.maxLocals → 0 ≤ m.maxStack →
      (Ty.method d).arguments = .ok arguments → arguments.mapM parameterSlots = .ok parameters →
      m.maxLocals.toNat < (receiverSlots owner m ++ parameters.flatten).length →
      EntryOutcome owner m (.error (.failed (.parameters m.name m.desc m.maxLocals)))
  | frame {d : String} {arguments : List Ty} {parameters : List (List Slot)} {returned : Ty}
      {result : Slot} : m.type = .ok (.method d) → 0 ≤ m.maxLocals → 0 ≤ m.maxStack →
      (Ty.method d).arguments = .ok arguments → arguments.mapM parameterSlots = .ok parameters →
      (Ty.method d).result = .ok returned → Transfer.valueOf returned = .ok result →
      (receiverSlots owner m ++ parameters.flatten).length ≤ m.maxLocals.toNat →
      EntryOutcome owner m (.ok ⟨(receiverSlots owner m ++ parameters.flatten ++
        List.replicate (m.maxLocals.toNat - (receiverSlots owner m ++ parameters.flatten).length)
          (some Value.uninit)).toArray, [], m.maxStack.toNat, result⟩)

/-- The types of values have values. -/
theorem exists_valueOf_of_whole {t : Ty} (h : t.Whole) : ∃ v, Transfer.valueOf t = .ok v := by
  cases t with
  | method d => exact absurd h id
  | _ => exact ⟨_, rfl⟩

/-- **One of these is the case**, since the projections of an accepted descriptor succeed. -/
theorem entryOutcome (owner : String) (m : Method) : EntryOutcome owner m (entryFrame owner m) := by
  cases htype : m.type with
  | error e =>
    have hentry : entryFrame owner m = .error (.failed (.descriptor e)) := by
      unfold entryFrame
      rw [htype]
      rfl
    exact hentry ▸ .descriptor htype
  | ok t =>
    obtain ⟨d, rfl, hparse⟩ := Desc.parse_of_parseMethod htype
    by_cases hnegative : m.maxLocals < 0 ∨ m.maxStack < 0
    · have hmake : Frame.make m.maxLocals m.maxStack = .error .negativeSize := if_pos hnegative
      have hentry : entryFrame owner m = .error (.fault .negativeSize) := by
        unfold entryFrame
        rw [mapError_bind_of_ok htype, hmake]
        rfl
      exact hentry ▸ .negative htype hnegative
    · have hmake : Frame.make m.maxLocals m.maxStack =
          .ok ⟨Array.replicate m.maxLocals.toNat none, [], m.maxStack.toNat, none⟩ := if_neg hnegative
      obtain ⟨arguments, harguments, hwhole⟩ := Ty.exists_arguments hparse
      obtain ⟨returned, hreturned, hreturnedWhole⟩ := Ty.exists_result hparse
      obtain ⟨result, hresult⟩ := exists_valueOf_of_whole hreturnedWhole
      obtain ⟨parameters, hparameters, -⟩ := exists_mapM_of_forall (f := parameterSlots)
        (P := fun _ => True) (l := arguments) fun a ha => by
          obtain ⟨v, hv⟩ := exists_valueOf_of_whole (hwhole a ha)
          unfold parameterSlots
          rw [hv]
          exact ⟨_, rfl, trivial⟩
      have hreceiver : (if m.isStatic then [] else [some (Value.ofClassName owner)]) =
          receiverSlots owner m := rfl
      unfold entryFrame
      rw [mapError_bind_of_ok htype, mapError_bind_of_ok hmake, mapError_bind_of_ok harguments,
        mapError_bind_of_ok hparameters]
      simp only [hreceiver, Array.size_replicate]
      split
      · rename_i hshort
        exact .short htype (by omega) (by omega) harguments hparameters hshort
      · rename_i hfits
        rw [mapError_bind_of_ok hreturned, mapError_bind_of_ok hresult]
        exact .frame htype (by omega) (by omega) harguments hparameters hreturned hresult
          (Nat.not_lt.mp hfits)

/-- **The layout of the first frame**: the receiver, the slots of each parameter in order, which have to
fit, and nothing known of the other variables; an empty stack; and the value of the result type. -/
theorem entryFrame_layout (h : entryFrame owner m = .ok entry) :
    0 ≤ m.maxLocals ∧ 0 ≤ m.maxStack ∧ ∃ t arguments parameters returned result,
      m.type = .ok t ∧ t.arguments = .ok arguments ∧
      arguments.mapM parameterSlots = .ok parameters ∧ t.result = .ok returned ∧
      Transfer.valueOf returned = .ok result ∧
      (receiverSlots owner m ++ parameters.flatten).length ≤ m.maxLocals.toNat ∧
      entry = ⟨(receiverSlots owner m ++ parameters.flatten ++
        List.replicate (m.maxLocals.toNat - (receiverSlots owner m ++ parameters.flatten).length)
          (some Value.uninit)).toArray, [], m.maxStack.toNat, result⟩ := by
  have houtcome := entryOutcome owner m
  rw [h] at houtcome
  cases houtcome with
  | frame htype hlocals hstack harguments hparameters hreturned hresult hfits =>
    exact ⟨hlocals, hstack, _, _, _, _, _, htype, harguments, hparameters, hreturned, hresult, hfits, rfl⟩

/-- **The shape of the first frame**: values for the receiver and the parameters, which have to fit, and
an empty stack. -/
theorem entryFrame_eq_ok (h : entryFrame owner m = .ok entry) :
    0 ≤ m.maxLocals ∧ 0 ≤ m.maxStack ∧ ∃ used result, used.length ≤ m.maxLocals.toNat ∧
      (∀ v ∈ used, v.isSome) ∧
      entry = ⟨(used ++ List.replicate (m.maxLocals.toNat - used.length) (some .uninit)).toArray,
        [], m.maxStack.toNat, result⟩ := by
  obtain ⟨hlocals, hstack, t, arguments, parameters, returned, result, -, harguments, hparameters, -, -,
    hfits, hentry⟩ := entryFrame_layout h
  refine ⟨hlocals, hstack, _, result, hfits, ?_, hentry⟩
  -- The receiver is a reference, and a parameter is not `void`.
  intro v hv
  rcases List.mem_append.mp hv with hv | hv
  · unfold receiverSlots at hv
    split at hv
    · exact absurd hv List.not_mem_nil
    · rw [List.mem_singleton.mp hv]
      rfl
  · obtain ⟨slots, hslots, hv⟩ := List.mem_flatten.mp hv
    obtain ⟨a, ha, hslots⟩ := exists_of_mem_mapM hparameters hslots
    exact isSome_of_mem_parameterSlots hslots (Ty.ne_void_of_mem_arguments harguments a ha) v hv

theorem size_entryFrame (h : entryFrame owner m = .ok entry) :
    entry.locals.size = m.maxLocals.toNat := by
  obtain ⟨-, -, used, result, hfits, -, rfl⟩ := entryFrame_eq_ok h
  simp only [List.size_toArray, List.length_append, List.length_replicate]
  omega

/-- **The first frame is filled.** -/
theorem filled_entryFrame (h : entryFrame owner m = .ok entry) : entry.Filled := by
  obtain ⟨-, -, used, result, -, hused, rfl⟩ := entryFrame_eq_ok h
  refine ⟨fun v hv => ?_, fun v hv => absurd hv List.not_mem_nil⟩
  rcases List.mem_append.mp (List.mem_toArray.mp hv) with hv | hv
  · exact hused v hv
  · rw [List.eq_of_mem_replicate hv]
    rfl

end Flow

end StackMap
