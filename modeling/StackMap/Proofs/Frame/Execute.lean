import StackMap.Proofs.Frame.Rearrange

/-!
# `Proofs.Frame.Execute`: runs of instructions and the execution relation

`Frame.execute` succeeds exactly if `Frame.Executes` holds. Stores and invocations have statements of
their own; the other effects are one step each over the statements of `Proofs.Frame.Run`.
-/

namespace StackMap

/-! ## Stores -/

/-- The local variables without a value of size two whose second half is the variable `k`. -/
def withoutSplit (locals : Array Slot) (k : Nat) : Array Slot :=
  locals.mapIdx fun j old => if j + 1 = k ∧ old.width = some 2 then some .uninit else old

theorem withoutSplit_zero (locals : Array Slot) : withoutSplit locals 0 = locals := by
  apply Array.ext
  · simp [withoutSplit]
  · intro j _ _
    simp [withoutSplit]

theorem withoutSplit_succ_of_wide {locals : Array Slot} {k : Nat} {w : Slot}
    (hw : locals[k]? = some w) (hwide : w.width = some 2) :
    withoutSplit locals (k + 1) = locals.setIfInBounds k (some .uninit) := by
  obtain ⟨hk, rfl⟩ := Array.getElem?_eq_some_iff.mp hw
  apply Array.ext
  · simp [withoutSplit]
  · intro j _ hj
    rw [Array.size_setIfInBounds] at hj
    simp only [withoutSplit, Array.getElem_mapIdx, Array.getElem_setIfInBounds hj]
    by_cases hkj : k = j
    · subst hkj
      rw [if_pos ⟨rfl, hwide⟩, if_pos rfl]
    · rw [if_neg (fun h => hkj (by omega)), if_neg hkj]

theorem withoutSplit_succ_of_narrow {locals : Array Slot} {k : Nat} {w : Slot}
    (hw : locals[k]? = some w) (hnarrow : w.width ≠ some 2) :
    withoutSplit locals (k + 1) = locals := by
  obtain ⟨hk, rfl⟩ := Array.getElem?_eq_some_iff.mp hw
  apply Array.ext
  · simp [withoutSplit]
  · intro j _ _
    simp only [withoutSplit, Array.getElem_mapIdx]
    rw [if_neg]
    rintro ⟨hjk, hwide⟩
    obtain rfl : j = k := by omega
    exact hnarrow hwide

theorem storedLocals_of_wide {locals : Array Slot} {k : Nat} {v : Slot} (hv : v.width = some 2) :
    storedLocals locals k v =
      withoutSplit ((locals.setIfInBounds k v).setIfInBounds (k + 1) (some .uninit)) k := by
  apply Array.ext
  · simp [storedLocals, withoutSplit]
  · intro j hj _
    simp only [storedLocals, Array.size_mapIdx] at hj
    simp only [storedLocals, withoutSplit, Array.getElem_mapIdx,
      Array.getElem_setIfInBounds (by simpa using hj : j < (locals.setIfInBounds k v).size),
      Array.getElem_setIfInBounds hj, hv, and_true]
    by_cases hjk : j = k
    · subst hjk
      rw [if_pos rfl, if_neg (by omega), if_neg (by omega), if_pos rfl]
    · rw [if_neg hjk, if_neg (Ne.symm hjk)]
      by_cases hnext : k + 1 = j
      · rw [if_pos (Or.inl hnext.symm), if_pos hnext, if_neg (by omega)]
      · rw [if_neg hnext]
        simp only [Ne.symm hnext, false_or]

theorem storedLocals_of_narrow {locals : Array Slot} {k : Nat} {v : Slot} (hv : v.width ≠ some 2) :
    storedLocals locals k v = withoutSplit (locals.setIfInBounds k v) k := by
  apply Array.ext
  · simp [storedLocals, withoutSplit]
  · intro j hj _
    simp only [storedLocals, Array.size_mapIdx] at hj
    simp only [storedLocals, withoutSplit, Array.getElem_mapIdx, Array.getElem_setIfInBounds hj, hv,
      and_false, false_or]
    by_cases hjk : j = k
    · subst hjk
      rw [if_pos rfl, if_pos rfl, if_neg (by omega)]
    · rw [if_neg hjk, if_neg (Ne.symm hjk)]

/-- A store does not write the variable before by itself. -/
theorem getElem?_before_store {locals : Array Slot} {k j : Nat} {v : Slot} (hj : j + 1 = k) :
    (locals.setIfInBounds k v)[j]? = locals[j]? :=
  Array.getElem?_setIfInBounds_ne (by omega)

theorem getElem?_before_wide_store {locals : Array Slot} {k j : Nat} {v w : Slot}
    (hj : j + 1 = k) :
    ((locals.setIfInBounds k v).setIfInBounds (k + 1) w)[j]? = locals[j]? :=
  (Array.getElem?_setIfInBounds_ne (by omega)).trans (getElem?_before_store hj)

namespace Exec

variable {f f' : Frame} {u : Unit} {insn : Insn}

theorem run_forget_eq_ok_iff {k : Nat} (hk : k < f.locals.size) :
    (forget k).run f = .ok u f' ↔
      (∀ j w, j + 1 = k → f.locals[j]? = some w → w.isSome) ∧
        f' = { f with locals := withoutSplit f.locals k } := by
  cases k with
  | zero =>
    rw [forget, if_neg (by simp), run_pure_eq_ok_iff, withoutSplit_zero]
    simp
  | succ j =>
    -- The variable before is read, so it has to hold a value, and is written if that has size two.
    rw [forget, if_pos (by omega), show ((j + 1 : Nat) : Int) - 1 = (j : Nat) by omega]
    simp only [run_bind_eq_ok_iff, run_getLocal_eq_ok_iff, run_size_eq_ok_iff]
    have hj : f.locals[j]? = some f.locals[j] := Array.getElem?_eq_getElem (by omega)
    constructor
    · rintro ⟨w, _, ⟨j', hjj, hw, rfl⟩, n, _, ⟨hn, rfl⟩, h⟩
      obtain rfl : j = j' := by omega
      refine ⟨fun j' w' hj' hw' => ?_, ?_⟩
      · obtain rfl : j = j' := by omega
        rw [hw] at hw'
        injection hw' with hw'
        rw [← hw']
        exact Slot.isSome_of_width hn
      · split at h
        · rename_i hn2
          obtain ⟨j', hjj, _, rfl⟩ := run_setLocal_eq_ok_iff.mp h
          obtain rfl : j = j' := by omega
          rw [withoutSplit_succ_of_wide hw (by rw [hn, hn2])]
        · rename_i hn2
          obtain ⟨_, rfl⟩ := run_pure_eq_ok_iff.mp h
          rw [withoutSplit_succ_of_narrow hw (by rw [hn]; simpa using hn2)]
    · rintro ⟨hsome, rfl⟩
      obtain ⟨x, hx⟩ := Option.isSome_iff_exists.mp (hsome j _ rfl hj)
      refine ⟨_, _, ⟨j, rfl, hj, rfl⟩, x.size, _, ⟨by rw [hx]; rfl, rfl⟩, ?_⟩
      split
      · rename_i hn2
        rw [withoutSplit_succ_of_wide hj (by rw [hx, ← hn2]; rfl), run_setLocal_eq_ok_iff]
        exact ⟨j, rfl, by omega, rfl⟩
      · rename_i hn2
        rw [withoutSplit_succ_of_narrow hj (by rw [hx]; simpa [Slot.width] using hn2), run_pure_eq_ok_iff]
        exact ⟨rfl, rfl⟩

theorem run_store_eq_ok_iff {i : Int} :
    (store i).run f = .ok u f' ↔ ∃ (k : Nat) (v : Slot), i = k ∧ Storable f.locals k v ∧
      f.Replaces [v] [] (storedLocals f.locals k v) f' := by
  rw [store_eq]
  -- Both directions split on the size of the value: one of size two also takes the next variable.
  simp only [run_bind_eq_ok_iff, run_pop_eq_ok_iff, run_setLocal_eq_ok_iff, run_size_eq_ok_iff]
  constructor
  · rintro ⟨v, _, ⟨rest, hs, rfl⟩, _, _, ⟨k, rfl, hk, rfl⟩, n, _, ⟨hn, rfl⟩, h⟩
    refine ⟨k, v, rfl, ?_⟩
    split at h
    · rename_i hn2
      subst hn2
      simp only [run_bind_eq_ok_iff, run_setLocal_eq_ok_iff] at h
      obtain ⟨_, _, ⟨k', hkk, hk', rfl⟩, h⟩ := h
      obtain rfl : k' = k + 1 := by omega
      obtain ⟨hprev, rfl⟩ := (run_forget_eq_ok_iff (by simpa using hk)).mp h
      refine ⟨⟨hk, Slot.isSome_of_width hn, fun _ => by simpa using hk', fun j w hj hw => ?_⟩,
        rest, hs, by simp, Or.inl rfl, ?_⟩
      · exact hprev j w hj ((getElem?_before_wide_store hj).trans hw)
      · rw [storedLocals_of_wide hn]
        rfl
    · rename_i hn2
      have hn' : v.width ≠ some 2 := by simpa [hn] using hn2
      obtain ⟨hprev, rfl⟩ := (run_forget_eq_ok_iff (by simpa using hk)).mp h
      refine ⟨⟨hk, Slot.isSome_of_width hn, fun h2 => absurd h2 hn', fun j w hj hw => ?_⟩,
        rest, hs, by simp, Or.inl rfl, ?_⟩
      · exact hprev j w hj ((getElem?_before_store hj).trans hw)
      · rw [storedLocals_of_narrow hn']
        rfl
  · rintro ⟨k, v, rfl, hst, rest, hs, _, _, rfl⟩
    obtain ⟨x, rfl⟩ := Option.isSome_iff_exists.mp hst.present
    refine ⟨_, _, ⟨rest, hs, rfl⟩, (), _, ⟨k, rfl, hst.inside, rfl⟩, x.size, _, ⟨rfl, rfl⟩, ?_⟩
    split
    · rename_i hn2
      have hwide : Slot.width (some x) = some 2 := congrArg some hn2
      rw [run_bind_eq_ok_iff]
      refine ⟨(), _, run_setLocal_eq_ok_iff.mpr ⟨k + 1, rfl, ?_, rfl⟩, ?_⟩
      · simpa using hst.next hwide
      · refine (run_forget_eq_ok_iff (by simpa using hst.inside)).mpr ⟨fun j w hj hw => ?_, ?_⟩
        · exact hst.previous j w hj ((getElem?_before_wide_store hj).symm.trans hw)
        · rw [storedLocals_of_wide hwide]
          rfl
    · rename_i hn2
      have hnarrow : Slot.width (some x) ≠ some 2 := fun h => hn2 (Option.some.inj h)
      refine (run_forget_eq_ok_iff (by simpa using hst.inside)).mpr ⟨fun j w hj hw => ?_, ?_⟩
      · exact hst.previous j w hj ((getElem?_before_store hj).symm.trans hw)
      · rw [storedLocals_of_narrow hnarrow]
        rfl

/-! ## Invocations -/

theorem run_invokedDescriptor_eq_ok_iff {desc : String} :
    (invokedDescriptor insn).run f = .ok desc f' ↔ insn.invoked? = some desc ∧ f' = f := by
  unfold invokedDescriptor Insn.invoked?
  split
  · rw [run_pure_eq_ok_iff, Option.some.injEq, eq_comm]
  · rw [run_pure_eq_ok_iff, Option.some.injEq, eq_comm]
  · rw [run_fault_eq_ok_iff]
    simp

theorem run_invoke_eq_ok_iff :
    (invoke insn).run f = .ok u f' ↔ ∃ desc t r arguments v taken,
      insn.invoked? = some desc ∧ Desc.parseMethod desc = .ok t ∧ t.arguments = .ok arguments ∧
      taken.length = arguments.length + insn.receivers ∧
      Transfer.variadic insn = .ok v ∧ t.result = .ok r ∧
      f.Replaces taken (if r = .void then [] else [v]) f.locals f' := by
  unfold invoke
  rw [run_bind_eq_ok_iff]
  simp only [run_invokedDescriptor_eq_ok_iff]
  constructor
  · rintro ⟨desc, _, ⟨hdesc, rfl⟩, h⟩
    split at h
    · exact absurd h (by simp [run_fail_eq_ok_iff])
    · rename_i t ht
      simp only [run_bind_eq_ok_iff, run_ofProjection_eq_ok_iff, run_popMany_eq_ok_iff,
        run_ofExcept_eq_ok_iff] at h
      obtain ⟨arguments, _, ⟨hargs, rfl⟩, _, _, ⟨taken, rest, hlen, hs, rfl⟩, v, _, ⟨hv, rfl⟩,
        r, _, ⟨hr, rfl⟩, h⟩ := h
      refine ⟨desc, t, r, arguments, v, taken, hdesc, ht, hargs, ?_, hv, hr, ?_⟩
      · rw [hlen, Insn.receivers]
        split <;> rfl
      · by_cases hvoid : r = .void
        · rw [if_neg (by simpa using hvoid)] at h
          obtain ⟨-, rfl⟩ := run_pure_eq_ok_iff.mp h
          rw [if_pos hvoid, replaces_drop_iff hs]
        · rw [if_pos hvoid] at h
          rw [if_neg hvoid]
          exact (run_push_after hs).mp h
  · rintro ⟨desc, t, r, arguments, v, taken, hdesc, ht, hargs, hlen, hv, hr, hrep⟩
    refine ⟨desc, f, ⟨hdesc, rfl⟩, ?_⟩
    rw [ht]
    simp only [run_bind_eq_ok_iff, run_ofProjection_eq_ok_iff, run_popMany_eq_ok_iff,
      run_ofExcept_eq_ok_iff]
    obtain ⟨rest, hs, -⟩ := id hrep
    refine ⟨arguments, _, ⟨hargs, rfl⟩, (), _, ⟨taken, rest, ?_, hs, rfl⟩, v, _, ⟨hv, rfl⟩,
      r, _, ⟨hr, rfl⟩, ?_⟩
    · rw [hlen, Insn.receivers]
      split <;> rfl
    · -- An invocation that returns nothing pushes nothing.
      by_cases hvoid : r = .void
      · rw [if_pos hvoid, replaces_drop_iff hs] at hrep
        rw [if_neg (by simpa using hvoid), run_pure_eq_ok_iff]
        exact ⟨rfl, hrep⟩
      · rw [if_neg hvoid] at hrep
        rw [if_pos hvoid]
        exact (run_push_after hs).mpr hrep

/-! ## All effects -/

theorem run_binary_eq_ok_iff {v : Slot} :
    (binary insn).run f = .ok v f' ↔ ∃ upper lower rest, f.stack = [upper, lower] ++ rest ∧
      Transfer.binary insn lower = .ok v ∧ f' = { f with stack := rest } := by
  simp only [binary, run_bind_eq_ok_iff, run_pop_eq_ok_iff, run_ofExcept_eq_ok_iff]
  constructor
  · rintro ⟨upper, _, ⟨_, hs, rfl⟩, lower, _, ⟨rest, rfl, rfl⟩, hv, rfl⟩
    exact ⟨upper, lower, rest, hs, hv, rfl⟩
  · rintro ⟨upper, lower, rest, hs, hv, rfl⟩
    exact ⟨upper, _, ⟨_, hs, rfl⟩, lower, _, ⟨rest, rfl, rfl⟩, hv, rfl⟩

theorem run_unary_eq_ok_iff {v : Slot} :
    (unary insn).run f = .ok v f' ↔ ∃ operand rest, f.stack = [operand] ++ rest ∧
      Transfer.unary insn = .ok v ∧ f' = { f with stack := rest } := by
  simp only [unary, run_bind_eq_ok_iff, run_pop_eq_ok_iff, run_ofExcept_eq_ok_iff]
  constructor
  · rintro ⟨operand, _, ⟨rest, hs, rfl⟩, hv, rfl⟩
    exact ⟨operand, rest, hs, hv, rfl⟩
  · rintro ⟨operand, rest, hs, hv, rfl⟩
    exact ⟨operand, _, ⟨rest, hs, rfl⟩, hv, rfl⟩

theorem unary_iinc (i amount : Int) : Transfer.unary (.iinc i amount) = .ok (some .int) := rfl

/-- The frame as it stands before an instruction that pops nothing. -/
theorem stack_eq_nil_append (f : Frame) : f.stack = [] ++ f.stack := rfl

/-- What a successful run does is what its effect says. -/
theorem acts_of_run_perform {effect : Effect} (h : (perform insn effect).run f = .ok u f') :
    ∃ taken locals given, effect.Acts insn f.result f.locals taken locals given ∧
      f.Replaces taken given locals f' := by
  -- A run falls into its pops, its transfer function and its push; those are the parts of a rule.
  cases effect with
  | idle =>
    obtain ⟨-, rfl⟩ := run_pure_eq_ok_iff.mp h
    exact ⟨[], _, [], .idle, replaces_nil_iff.mpr rfl⟩
  | produce =>
    simp only [perform, run_bind_eq_ok_iff, run_ofExcept_eq_ok_iff] at h
    obtain ⟨v, _, ⟨hv, rfl⟩, h⟩ := h
    exact ⟨[], _, [v], .produce hv, (run_push_after (stack_eq_nil_append _)).mp h⟩
  | load =>
    simp only [perform, run_bind_eq_ok_iff, run_variableOf_eq_ok_iff, run_getLocal_eq_ok_iff] at h
    obtain ⟨i, _, ⟨⟨op, hinsn⟩, rfl⟩, v, _, ⟨k, rfl, hv, rfl⟩, h⟩ := h
    exact ⟨[], _, [v], .load hinsn hv, (run_push_after (stack_eq_nil_append _)).mp h⟩
  | store =>
    simp only [perform, run_bind_eq_ok_iff, run_variableOf_eq_ok_iff, run_store_eq_ok_iff] at h
    obtain ⟨i, _, ⟨⟨op, hinsn⟩, rfl⟩, k, v, rfl, hst, hr⟩ := h
    exact ⟨[v], _, [], .store hinsn hst, hr⟩
  | combine =>
    simp only [perform, run_bind_eq_ok_iff, run_binary_eq_ok_iff] at h
    obtain ⟨v, _, ⟨upper, lower, rest, hs, hv, rfl⟩, h⟩ := h
    exact ⟨[upper, lower], _, [v], .combine hv, (run_push_after hs).mp h⟩
  | storeElement =>
    obtain ⟨taken, rest, hlen, hs, rfl⟩ := run_popMany_eq_ok_iff.mp h
    exact ⟨taken, _, [], .storeElement hlen, (replaces_drop_iff hs).mpr rfl⟩
  | rearrange op =>
    obtain ⟨form, hform, taken, htakes, hr⟩ := run_stackOp_eq_ok_iff.mp h
    exact ⟨taken, _, _, .rearrange hform htakes, hr⟩
  | convert =>
    simp only [perform, run_bind_eq_ok_iff, run_unary_eq_ok_iff] at h
    obtain ⟨v, _, ⟨operand, rest, hs, hv, rfl⟩, h⟩ := h
    exact ⟨[operand], _, [v], .convert hv, (run_push_after hs).mp h⟩
  | increment =>
    cases insn with
    | iinc i amount =>
      simp only [perform, run_bind_eq_ok_iff, run_getLocal_eq_ok_iff, run_ofExcept_eq_ok_iff,
        run_setLocal_eq_ok_iff, unary_iinc] at h
      obtain ⟨w, _, ⟨k, rfl, hw, rfl⟩, v, _, ⟨hv, rfl⟩, k', hkk, hk, rfl⟩ := h
      obtain rfl : k = k' := by omega
      injection hv with hv
      subst hv
      exact ⟨[], _, [], .increment rfl hk, replaces_nil_iff.mpr rfl⟩
    | _ => exact absurd h (by simp [perform, run_fault_eq_ok_iff])
  | consume =>
    simp only [perform, run_bind_eq_ok_iff, run_unary_eq_ok_iff, run_pure_eq_ok_iff] at h
    obtain ⟨v, _, ⟨operand, rest, hs, hv, rfl⟩, -, rfl⟩ := h
    exact ⟨[operand], _, [], .consume hv, (replaces_drop_iff hs).mpr rfl⟩
  | consumeTwo =>
    simp only [perform, run_bind_eq_ok_iff, run_binary_eq_ok_iff, run_pure_eq_ok_iff] at h
    obtain ⟨v, _, ⟨upper, lower, rest, hs, hv, rfl⟩, -, rfl⟩ := h
    exact ⟨[upper, lower], _, [], .consumeTwo hv, (replaces_drop_iff hs).mpr rfl⟩
  | returnValue =>
    simp only [perform, run_bind_eq_ok_iff, run_unary_eq_ok_iff, run_pure_eq_ok_iff] at h
    obtain ⟨v, _, ⟨operand, rest, hs, hv, rfl⟩, -, rfl⟩ := h
    exact ⟨[operand], _, [], .returnValue hv, (replaces_drop_iff hs).mpr rfl⟩
  | returnVoid =>
    rw [perform, run_get_bind] at h
    split at h
    · exact absurd h (by simp [run_fail_eq_ok_iff])
    · rename_i hresult
      obtain ⟨-, rfl⟩ := run_pure_eq_ok_iff.mp h
      exact ⟨[], _, [], .returnVoid (by simpa using hresult), replaces_nil_iff.mpr rfl⟩
  | invoke =>
    obtain ⟨desc, t, r, arguments, v, taken, hdesc, ht, hargs, hlen, hv, hr, hrep⟩ :=
      run_invoke_eq_ok_iff.mp h
    exact ⟨taken, _, _, .invoke hdesc ht hargs hlen hv hr, hrep⟩
  | multiArray =>
    cases insn with
    | multiArray desc dimensions =>
      rw [perform] at h
      split at h
      · simp only [run_bind_eq_ok_iff, run_fault_eq_ok_iff, false_and, exists_false] at h
      · rename_i hneg
        obtain ⟨n, rfl⟩ := Int.eq_ofNat_of_zero_le (Int.not_lt.mp hneg)
        simp only [run_bind_eq_ok_iff, run_popMany_eq_ok_iff, run_ofExcept_eq_ok_iff,
          Int.toNat_natCast] at h
        obtain ⟨_, _, ⟨taken, rest, hlen, hs, rfl⟩, v, _, ⟨hv, rfl⟩, h⟩ := h
        exact ⟨taken, _, [v], .multiArray rfl hlen hv, (run_push_after hs).mp h⟩
    | _ => exact absurd h (by simp [perform, run_fault_eq_ok_iff])

/-- What an effect says can be run. -/
theorem run_perform_of_acts {effect : Effect} {taken given : List Slot} {locals : Array Slot}
    (h : effect.Acts insn f.result f.locals taken locals given)
    (hr : f.Replaces taken given locals f') : (perform insn effect).run f = .ok () f' := by
  -- The rest of the stack is the same for every rule, as is the room on it.
  obtain ⟨rest, hs, -⟩ := id hr
  cases h with
  | idle => rw [replaces_nil_iff.mp hr]; rfl
  | produce hv =>
    simp only [perform, run_bind_eq_ok_iff, run_ofExcept_eq_ok_iff]
    exact ⟨_, _, ⟨hv, rfl⟩, (run_push_after (stack_eq_nil_append _)).mpr hr⟩
  | load hinsn hv =>
    simp only [perform, run_bind_eq_ok_iff, run_variableOf_eq_ok_iff, run_getLocal_eq_ok_iff]
    exact ⟨_, _, ⟨⟨_, hinsn⟩, rfl⟩, _, _, ⟨_, rfl, hv, rfl⟩,
      (run_push_after (stack_eq_nil_append _)).mpr hr⟩
  | store hinsn hst =>
    simp only [perform, run_bind_eq_ok_iff, run_variableOf_eq_ok_iff, run_store_eq_ok_iff]
    exact ⟨_, _, ⟨⟨_, hinsn⟩, rfl⟩, _, _, rfl, hst, hr⟩
  | combine hv =>
    simp only [perform, run_bind_eq_ok_iff, run_binary_eq_ok_iff]
    exact ⟨_, _, ⟨_, _, rest, hs, hv, rfl⟩, (run_push_after hs).mpr hr⟩
  | storeElement hlen =>
    exact run_popMany_eq_ok_iff.mpr ⟨taken, rest, hlen, hs, (replaces_drop_iff hs).mp hr⟩
  | rearrange hform htakes => exact run_stackOp_eq_ok_iff.mpr ⟨_, hform, taken, htakes, hr⟩
  | convert hv =>
    simp only [perform, run_bind_eq_ok_iff, run_unary_eq_ok_iff]
    exact ⟨_, _, ⟨_, rest, hs, hv, rfl⟩, (run_push_after hs).mpr hr⟩
  | increment hinsn hk =>
    subst hinsn
    simp only [perform, run_bind_eq_ok_iff, run_getLocal_eq_ok_iff, run_ofExcept_eq_ok_iff,
      run_setLocal_eq_ok_iff, unary_iinc]
    exact ⟨_, _, ⟨_, rfl, Array.getElem?_eq_getElem hk, rfl⟩, _, _, ⟨rfl, rfl⟩, _, rfl, hk,
      replaces_nil_iff.mp hr⟩
  | consume hv =>
    simp only [perform, run_bind_eq_ok_iff, run_unary_eq_ok_iff, run_pure_eq_ok_iff]
    exact ⟨_, _, ⟨_, rest, hs, hv, rfl⟩, trivial, (replaces_drop_iff hs).mp hr⟩
  | consumeTwo hv =>
    simp only [perform, run_bind_eq_ok_iff, run_binary_eq_ok_iff, run_pure_eq_ok_iff]
    exact ⟨_, _, ⟨_, _, rest, hs, hv, rfl⟩, trivial, (replaces_drop_iff hs).mp hr⟩
  | returnValue hv =>
    simp only [perform, run_bind_eq_ok_iff, run_unary_eq_ok_iff, run_pure_eq_ok_iff]
    exact ⟨_, _, ⟨_, rest, hs, hv, rfl⟩, trivial, (replaces_drop_iff hs).mp hr⟩
  | returnVoid hresult =>
    rw [perform, run_get_bind, if_neg (by simp [hresult]), run_pure_eq_ok_iff]
    exact ⟨rfl, replaces_nil_iff.mp hr⟩
  | invoke hdesc ht hargs hlen hv hres =>
    exact run_invoke_eq_ok_iff.mpr ⟨_, _, _, _, _, taken, hdesc, ht, hargs, hlen, hv, hres, hr⟩
  | multiArray hinsn hlen hv =>
    subst hinsn
    rw [perform, if_neg (Int.not_lt.mpr (Int.natCast_nonneg _))]
    simp only [run_bind_eq_ok_iff, run_popMany_eq_ok_iff, run_ofExcept_eq_ok_iff, Int.toNat_natCast]
    exact ⟨(), _, ⟨taken, rest, hlen, hs, rfl⟩, _, _, ⟨hv, rfl⟩, (run_push_after hs).mpr hr⟩

end Exec

/-- **A run of an instruction succeeds exactly if the execution relation holds.** -/
theorem Frame.execute_eq_ok_iff {f f' : Frame} {insn : Insn} :
    f.execute insn = .ok f' ↔ f.Executes insn f' := by
  rw [Frame.execute_eq_ok_iff_run, Exec.execute]
  constructor
  · intro h
    cases heff : insn.opcode.effect? with
    | none =>
      rw [heff] at h
      exact absurd h (by simp [Exec.run_fault_eq_ok_iff])
    | some effect =>
      rw [heff] at h
      obtain ⟨taken, locals, given, hacts, hr⟩ := Exec.acts_of_run_perform h
      exact ⟨heff, hacts, hr⟩
  · rintro ⟨heff, hacts, hr⟩
    rw [heff]
    exact Exec.run_perform_of_acts hacts hr

end StackMap
