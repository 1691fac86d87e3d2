import StackMap.Proofs.Frame.Execute
import StackMap.Proofs.Frame.Order

/-!
# `Proofs.Frame.Monotone`: execution and the order of frames

An instruction that runs on a frame also runs on every filled frame below it, and the outcomes are in the
same order, provided that the instruction finds operands of the same sizes in both. The proviso cannot be
left out: nothing is known of a slot that has to stand for values of both sizes, and such a slot counts
as one of size one.

## Contents

* `Frame.SizesAgree`: an instruction finds operands of the same sizes in two frames.
* `Frame.Executes.peer`, `Frame.Executes.filled`: what execution keeps.
* `Frame.execute_mono`: execution is monotone.
* `Frame.execute_mono_of_sizes`: so it is where the entries of the stacks have the same sizes.
-/

namespace StackMap

/-! ## What execution keeps -/

theorem size_storedLocals (locals : Array Slot) (k : Nat) (v : Slot) :
    (storedLocals locals k v).size = locals.size := by
  simp [storedLocals]

/-- What a store makes of the local variables, one by one. -/
theorem getElem?_storedLocals (locals : Array Slot) (k j : Nat) (v : Slot) :
    (storedLocals locals k v)[j]? = locals[j]?.map fun old =>
      if j = k then v
      else if (j = k + 1 ∧ v.width = some 2) ∨ (j + 1 = k ∧ old.width = some 2) then some .uninit
      else old := by
  rw [storedLocals, Array.getElem?_mapIdx]

namespace Effect.Acts

variable {insn : Insn} {result : Slot} {effect : Effect} {locals locals' : Array Slot}
  {taken given : List Slot}

theorem size_locals (h : effect.Acts insn result locals taken locals' given) :
    locals'.size = locals.size := by
  cases h with
  | store _ _ => exact size_storedLocals _ _ _
  | increment _ _ => simp
  | _ => rfl

/-- No effect leaves a local variable without a value. -/
theorem isSome_locals (h : effect.Acts insn result locals taken locals' given)
    (hl : ∀ v ∈ locals, v.isSome) : ∀ v ∈ locals', v.isSome := by
  cases h with
  | @store _ op k v hinsn hst =>
    intro w hw
    obtain ⟨j, hj⟩ := Array.mem_iff_getElem?.mp hw
    rw [getElem?_storedLocals, Option.map_eq_some_iff] at hj
    obtain ⟨old, hold, rfl⟩ := hj
    split
    · exact hst.present
    · split
      · rfl
      · exact hl old (Array.mem_of_getElem? hold)
  | increment _ _ =>
    intro w hw
    rcases Array.mem_or_eq_of_mem_setIfInBounds hw with hw | rfl
    · exact hl w hw
    · rfl
  | _ => exact hl

end Effect.Acts

namespace Frame

variable {insn : Insn} {f f' g g' : Frame}

theorem Executes.peer (h : f.Executes insn f') : f.Peer f' := by
  obtain ⟨-, hacts, rest, -, -, -, rfl⟩ := h
  exact ⟨hacts.size_locals.symm, rfl, rfl⟩

/-- **Execution keeps frames filled.** -/
theorem Executes.filled (h : f.Executes insn f') (hf : f.Filled) : f'.Filled := by
  obtain ⟨-, hacts, rest, hs, hgiven, -, rfl⟩ := h
  refine ⟨hacts.isSome_locals hf.locals, fun v hv => ?_⟩
  rcases List.mem_append.mp hv with hv | hv
  · exact hgiven v hv
  · exact hf.stack v (by rw [hs]; exact List.mem_append_right _ hv)

end Frame

/-! ## Sizes -/

/-- The sizes that an effect tells apart in the entries that it takes. -/
def Effect.sizes : Effect → List (List Nat)
  | .store => [[1], [2]]
  | .rearrange op => op.forms.map StackOp.Form.widths
  | _ => []

/-- The entries on top of the stack have the given sizes, the top first. -/
def Frame.Shows (f : Frame) (widths : List Nat) : Prop :=
  (f.stack.take widths.length).map Slot.width = widths.map some

/-- **An instruction finds operands of the same sizes in two frames**: where it tells sizes apart, the
frame `f` has those that it finds in `g`. -/
def Frame.SizesAgree (insn : Insn) (f g : Frame) : Prop :=
  ∀ effect ∈ insn.opcode.effect?, ∀ widths ∈ effect.sizes, g.Shows widths → f.Shows widths

/-- Entries that have the same sizes one by one are more than any instruction needs. -/
theorem Frame.SizesAgree.of_map_width_eq {insn : Insn} {f g : Frame}
    (h : f.stack.map Slot.width = g.stack.map Slot.width) : f.SizesAgree insn g := by
  intro effect _ widths _ hg
  unfold Shows at hg ⊢
  rw [List.map_take, h, ← List.map_take]
  exact hg

/-- Equal stacks have equal sizes. -/
theorem Frame.SizesAgree.of_stack_eq {insn : Insn} {f g : Frame} (h : f.stack = g.stack) :
    f.SizesAgree insn g := .of_map_width_eq (congrArg _ h)

/-! ## Execution is monotone -/

/-- Nothing but the load from a reference array looks at an operand, and that one needs an array. -/
theorem Transfer.binary_of_below {insn : Insn} {a b v : Slot} (hab : a.Below b)
    (h : binary insn b = .ok v) : binary insn a = .ok v := by
  rcases hab with rfl | rfl
  · -- Nothing is known of the operand, so the instruction is not that load.
    unfold binary at h ⊢
    cases hresult : binaryResult? insn.opcode with
    | some w => simpa only [hresult] using h
    | none =>
      simp only [hresult] at h ⊢
      split at h
      · exact absurd h (by simp [ofComponent])
      · rename_i hload
        rw [if_neg hload]
        exact h
  · exact h

/-- A store writes the same variables in both, for the stored values have one size. -/
theorem storedLocals_below {locals locals₂ : Array Slot} {k : Nat} {v v₂ : Slot}
    (hl : List.Forall₂ Slot.Below locals.toList locals₂.toList) (hv : v.Below v₂)
    (hw : v₂.width = v.width) :
    List.Forall₂ Slot.Below (storedLocals locals k v).toList (storedLocals locals₂ k v₂).toList := by
  -- Variable by variable: the one stored to, those that are lost, and the others.
  obtain ⟨hsize, hbelow⟩ := forall₂_toList_iff.mp hl
  refine forall₂_toList_iff.mpr ⟨by rw [size_storedLocals, size_storedLocals, hsize], ?_⟩
  intro j w w₂ hj hj₂
  rw [getElem?_storedLocals, Option.map_eq_some_iff] at hj hj₂
  obtain ⟨old, hold, rfl⟩ := hj
  obtain ⟨old₂, hold₂, rfl⟩ := hj₂
  have hbelow := hbelow j old old₂ hold hold₂
  by_cases hjk : j = k
  · rw [if_pos hjk, if_pos hjk]
    exact hv
  · rw [if_neg hjk, if_neg hjk, hw]
    by_cases hlost₂ : (j = k + 1 ∧ v.width = some 2) ∨ (j + 1 = k ∧ old₂.width = some 2)
    · rw [if_pos hlost₂]
      exact Slot.below_uninit _
    · rw [if_neg hlost₂]
      split
      · -- The variable before held a value of size two, which is lost in one frame only.
        rename_i hlost
        rcases hlost with hnext | ⟨hprev, hwide⟩
        · exact absurd (Or.inl hnext) hlost₂
        · rcases hbelow with rfl | rfl
          · exact Slot.Below.refl _
          · exact absurd (Or.inr ⟨hprev, hwide⟩) hlost₂
      · exact hbelow

namespace Effect.Acts

variable {insn : Insn} {result : Slot} {effect : Effect} {locals locals₂ locals₂' : Array Slot}
  {taken taken₂ given₂ : List Slot}

/-- **What an effect does on a frame, it does on filled ones below**, given that it finds the same
sizes. One case for each effect. -/
theorem mono (h : effect.Acts insn result locals₂ taken₂ locals₂' given₂)
    (hl : List.Forall₂ Slot.Below locals.toList locals₂.toList)
    (ht : List.Forall₂ Slot.Below taken taken₂)
    (hsome : ∀ v ∈ locals, v.isSome) (htaken : ∀ v ∈ taken, v.isSome)
    (hgiven : ∀ v ∈ given₂, v.isSome)
    (hsizes : ∀ widths ∈ effect.sizes, taken₂.map Slot.width = widths.map some →
      taken.map Slot.width = widths.map some) :
    ∃ locals' given, effect.Acts insn result locals taken locals' given ∧
      List.Forall₂ Slot.Below locals'.toList locals₂'.toList ∧
      List.Forall₂ Slot.Below given given₂ ∧ ∀ v ∈ given, v.isSome := by
  have hsize := (forall₂_toList_iff.mp hl).1
  cases h with
  | idle =>
    cases ht
    exact ⟨locals, [], .idle, hl, .nil, hgiven⟩
  | produce hv =>
    cases ht
    exact ⟨locals, _, .produce hv, hl, forall₂_below_refl _, hgiven⟩
  | @load _ op k v hinsn hv =>
    cases ht
    obtain ⟨hk, _⟩ := Array.getElem?_eq_some_iff.mp hv
    have hv' := Array.getElem?_eq_getElem (hsize ▸ hk : k < locals.size)
    refine ⟨locals, _, .load hinsn hv', hl, ?_, ?_⟩
    · exact .cons ((forall₂_toList_iff.mp hl).2 k _ _ hv' hv) .nil
    · exact List.forall_mem_singleton.mpr (hsome _ (Array.mem_of_getElem? hv'))
  | @store _ op k v₂ hinsn hst =>
    cases ht with
    | @cons v _ _ _ hv ht =>
      cases ht
      have hpresent : v.isSome := htaken v (List.mem_singleton_self v)
      -- A value has size one or two, and the store tells these apart.
      have hw : v₂.width = v.width := by
        obtain ⟨x, rfl⟩ := Option.isSome_iff_exists.mp hst.present
        have hmem : [x.size] ∈ Effect.store.sizes := by
          rcases x.size_eq with hx | hx <;> rw [hx] <;> decide
        have := hsizes [x.size] hmem rfl
        exact (List.singleton_inj.mp this).symm
      refine ⟨storedLocals locals k v, [], .store hinsn ⟨?_, hpresent, ?_, ?_⟩,
        storedLocals_below hl hv hw, .nil, hgiven⟩
      · rw [hsize]
        exact hst.inside
      · rw [← hw, hsize]
        exact hst.next
      · exact fun j w _ hj => hsome w (Array.mem_of_getElem? hj)
  | combine hv =>
    cases ht with
    | cons _ ht =>
      cases ht with
      | cons hlower ht =>
        cases ht
        exact ⟨locals, _, .combine (Transfer.binary_of_below hlower hv), hl,
          forall₂_below_refl _, hgiven⟩
  | storeElement hlen =>
    exact ⟨locals, [], .storeElement (ht.length_eq.trans hlen), hl, .nil, hgiven⟩
  | @rearrange _ op form _ hform htakes =>
    have htakes' : form.Takes taken :=
      hsizes form.widths (List.mem_map_of_mem hform) htakes
    refine ⟨locals, form.given taken, .rearrange hform htakes', hl, ?_, ?_⟩
    · rw [StackOp.Form.given, StackOp.Form.given, List.forall₂_map_left_iff,
        List.forall₂_map_right_iff, List.forall₂_same]
      exact fun i _ => forall₂_below_getElem? ht i
    · intro v hv
      obtain ⟨i, hi, rfl⟩ := List.mem_map.mp hv
      exact isSome_getElem?_of_below ht htaken (hgiven _ (List.mem_map_of_mem hi))
  | convert hv =>
    cases ht with
    | cons _ ht =>
      cases ht
      exact ⟨locals, _, .convert hv, hl, forall₂_below_refl _, hgiven⟩
  | @increment _ k amount hinsn hk =>
    cases ht
    refine ⟨_, [], .increment hinsn (hsize ▸ hk), ?_, .nil, hgiven⟩
    rw [Array.toList_setIfInBounds, Array.toList_setIfInBounds]
    exact forall₂_below_set hl k (some .int)
  | consume hv =>
    cases ht with
    | cons _ ht =>
      cases ht
      exact ⟨locals, [], .consume hv, hl, .nil, hgiven⟩
  | consumeTwo hv =>
    cases ht with
    | cons _ ht =>
      cases ht with
      | cons hlower ht =>
        cases ht
        exact ⟨locals, [], .consumeTwo (Transfer.binary_of_below hlower hv), hl, .nil, hgiven⟩
  | returnValue hv =>
    cases ht with
    | cons _ ht =>
      cases ht
      exact ⟨locals, [], .returnValue hv, hl, .nil, hgiven⟩
  | returnVoid hresult =>
    cases ht
    exact ⟨locals, [], .returnVoid hresult, hl, .nil, hgiven⟩
  | invoke hdesc ht' harg hlen hv hr =>
    exact ⟨locals, _, .invoke hdesc ht' harg (ht.length_eq.trans hlen) hv hr, hl,
      forall₂_below_refl _, hgiven⟩
  | multiArray hinsn hlen hv =>
    exact ⟨locals, _, .multiArray hinsn (ht.length_eq.trans hlen) hv, hl,
      forall₂_below_refl _, hgiven⟩

end Effect.Acts

namespace Frame

variable {insn : Insn} {f g g' : Frame}

/-- **Execution is monotone**: an instruction that runs on a frame runs on every filled frame below it,
with an outcome below, if it finds operands of the same sizes there. -/
theorem execute_mono (h : g.execute insn = .ok g') (hfg : f.Below g) (hpeer : f.Peer g)
    (hf : f.Filled) (hsizes : f.SizesAgree insn g) :
    ∃ f', f.execute insn = .ok f' ∧ f'.Below g' := by
  obtain ⟨heffect, hacts, rest₂, hstack₂, hgiven₂, hroom, rfl⟩ := execute_eq_ok_iff.mp h
  rename_i effect taken₂ given₂ locals₂'
  -- The stack below is cut where the one above is.
  have hcut := hfg.stack
  rw [hstack₂] at hcut
  have htaken := List.forall₂_take_append _ _ _ hcut
  have hrest := List.forall₂_drop_append _ _ _ hcut
  have hsome : ∀ v ∈ f.stack.take taken₂.length, v.isSome :=
    fun v hv => hf.stack v (List.mem_of_mem_take hv)
  have hsame : ∀ widths ∈ effect.sizes, taken₂.map Slot.width = widths.map some →
      (f.stack.take taken₂.length).map Slot.width = widths.map some := by
    intro widths hmem hw
    have hlen : taken₂.length = widths.length := by simpa using congrArg List.length hw
    have hshows : g.Shows widths := by
      rw [Shows, hstack₂, List.take_left' hlen]
      exact hw
    rw [hlen]
    exact hsizes effect heffect widths hmem hshows
  obtain ⟨locals', given, hacts', hlocals, hgiven, hpresent⟩ :=
    hacts.mono hfg.locals htaken hf.locals hsome hgiven₂ hsame
  refine ⟨{ f with locals := locals', stack := given ++ f.stack.drop taken₂.length },
    execute_eq_ok_iff.mpr (.mk heffect (hpeer.result ▸ hacts') ⟨_, ?_, hpresent, ?_, rfl⟩), ?_⟩
  · exact (List.take_append_drop _ _).symm
  · rcases hroom with hnil | hroom
    · refine Or.inl (List.eq_nil_of_length_eq_zero ?_)
      rw [hgiven.length_eq, hnil]
      rfl
    · right
      unfold HasRoom at hroom ⊢
      rw [hgiven.length_eq, hpeer.maxStack, hrest.length_eq]
      exact hroom
  · exact ⟨hlocals, List.rel_append hgiven hrest⟩

/-- **Execution is monotone where sizes agree**: an instruction that runs on a frame runs on every filled
frame below it whose stack has entries of the same sizes. The outcomes are again frames of one method, of
one height and in the same order. -/
theorem execute_mono_of_sizes (h : g.execute insn = .ok g') (hfg : f.Below g) (hpeer : f.Peer g)
    (hf : f.Filled) (hwidths : f.stack.map Slot.width = g.stack.map Slot.width) :
    ∃ f', f.execute insn = .ok f' ∧ f'.Below g' ∧ f'.Peer g' ∧ f'.stack.length = g'.stack.length := by
  obtain ⟨f', hrun, hbelow⟩ := execute_mono h hfg hpeer hf (.of_map_width_eq hwidths)
  have hkept : f.Peer f' := (execute_eq_ok_iff.mp hrun).peer
  have hkept' : g.Peer g' := (execute_eq_ok_iff.mp h).peer
  exact ⟨f', hrun, hbelow, hkept.symm.trans (hpeer.trans hkept'), hbelow.stack.length_eq⟩

/-- A store to the second half of a `long` that only one of the frames knows. The store forgets that value
in one frame, and in the other one there is nothing to forget. -/
theorem execute_mono_of_sizes_istore :
    let f : Frame := ⟨#[some .long, some .uninit], [some .int], 1, none⟩
    let g : Frame := ⟨#[some .uninit, some .uninit], [some .int], 1, none⟩
    g.execute (.var .istore 1) = .ok ⟨#[some .uninit, some .int], [], 1, none⟩ ∧
      ∃ f', f.execute (.var .istore 1) = .ok f' ∧
        f'.Below ⟨#[some .uninit, some .int], [], 1, none⟩ ∧ f'.stack.length = 0 := by
  intro f g
  have hrun : g.execute (.var .istore 1) = .ok ⟨#[some .uninit, some .int], [], 1, none⟩ := rfl
  have hbelow : f.Below g :=
    ⟨.cons (Slot.below_uninit _) (forall₂_below_refl _), forall₂_below_refl _⟩
  obtain ⟨f', hrun', hbelow', -, hheight⟩ :=
    execute_mono_of_sizes hrun hbelow ⟨rfl, rfl, rfl⟩ ⟨by decide, by decide⟩ rfl
  exact ⟨hrun, f', hrun', hbelow', hheight⟩

end Frame

end StackMap
