import StackMap.ClassFile.Pool
import StackMap.Proofs.Outcome
import Mathlib.Data.Finset.Card
import Mathlib.Data.Fintype.Pigeonhole
import Mathlib.Logic.Relation

/-!
# `Proofs.ClassFile.Resolution`: when the resolution of constants ends

Only dynamic constants lead from a constant to others: their bootstrap methods take constants as
arguments. A constant whose resolution has no end is found with a bound on the depth that is the size of
the pool, since with more steps than there are entries some entry is used on the way to itself. Every
other outcome does not depend on the bound.

## Contents

* `Refuses`: what fails because a reference is bad.
* `Pool.Uses`: a constant is an argument of another.
* `Pool.Endless`: no bound is enough for a constant.
* `Pool.loadable_eq_of_ends`: the bound on the depth is enough.
* `Pool.Endless.exists_cycle`: constants without end use one another in a circle.
-/

namespace StackMap.ClassFile

variable {α β : Type}

/-! ## Bad references -/

/-- Where it fails, a reference is bad. -/
def Refuses (x : Except FormatError α) : Prop :=
  ∀ cause, x = .error cause → cause.kind? = some .badConstant

namespace Refuses

theorem ok (a : α) : Refuses (.ok a) := fun _ h => nomatch h

theorem error {cause : FormatError} (h : cause.kind? = some .badConstant) :
    Refuses (.error cause : Except FormatError α) := by
  intro cause' heq
  cases heq
  exact h

theorem bind {x : Except FormatError α} {k : α → Except FormatError β} (hx : Refuses x)
    (hk : ∀ a, Refuses (k a)) : Refuses (x >>= k) := by
  intro cause h
  rcases bind_eq_error_iff.mp h with h | ⟨a, -, h⟩
  · exact hx cause h
  · exact hk a cause h

end Refuses

namespace Pool

variable (p : Pool)

theorem refuses_get (i : Nat) : Refuses (p.get i) := by
  unfold get
  split
  · exact .error rfl
  · split
    · exact .ok _
    · exact .error rfl

theorem refuses_utf8 (i : Nat) : Refuses (p.utf8 i) := by
  refine (p.refuses_get i).bind fun e => ?_
  split
  · exact .ok _
  · exact .error rfl

theorem refuses_className (i : Nat) : Refuses (p.className i) := by
  refine (p.refuses_get i).bind fun e => ?_
  split
  · exact p.refuses_utf8 _
  · exact .error rfl

theorem refuses_nameAndType (i : Nat) : Refuses (p.nameAndType i) := by
  refine (p.refuses_get i).bind fun e => ?_
  split
  · exact (p.refuses_utf8 _).bind fun _ => (p.refuses_utf8 _).bind fun _ => .ok _
  · exact .error rfl

theorem refuses_memberOf (owner nameAndType : Nat) (itf : Bool) :
    Refuses (p.memberOf owner nameAndType itf) :=
  (p.refuses_className _).bind fun _ => (p.refuses_nameAndType _).bind fun _ => .ok _

theorem refuses_member (tags : List Nat) (i : Nat) : Refuses (p.member tags i) := by
  refine (p.refuses_get i).bind fun e => ?_
  split
  · split
    · exact p.refuses_memberOf _ _ _
    · exact p.refuses_memberOf _ _ _
    · exact p.refuses_memberOf _ _ _
    · exact .error rfl
  · exact .error rfl

theorem refuses_handle (i : Nat) : Refuses (p.handle i) := by
  refine (p.refuses_get i).bind fun e => ?_
  split
  · exact (p.refuses_member _ _).bind fun _ => .ok _
  · exact .error rfl

/-! ## One level of dynamic constants -/

/-- **The constant `j` is an argument of the dynamic constant `i`.** -/
def Uses (i j : Nat) : Prop :=
  ∃ bootstrap nameAndType method, p.get i = .ok (.dynamic bootstrap nameAndType) ∧
    p.bootstrap[bootstrap]? = some method ∧ j ∈ method.args

variable {p} {load load' : Nat → Except FormatError Constant} {i j : Nat} {cause : FormatError}

/-- What uses another constant is in the pool. -/
theorem Uses.lt (h : p.Uses i j) : i < p.entries.size := by
  obtain ⟨bootstrap, nt, method, hget, -, -⟩ := h
  unfold get at hget
  split at hget
  · exact nomatch hget
  · split at hget
    · rename_i he
      exact (Array.getElem?_eq_some_iff.mp he).1
    · exact nomatch hget

theorem bootstrapWith_eq_error {k : Nat} (h : p.bootstrapWith load k = .error cause) :
    cause.kind? = some .badConstant ∨
      ∃ method, p.bootstrap[k]? = some method ∧ ∃ j ∈ method.args, load j = .error cause := by
  unfold bootstrapWith at h
  split at h
  · cases h
    exact Or.inl rfl
  · rename_i method hmethod
    rcases bind_eq_error_iff.mp h with h | ⟨_, -, h⟩
    · exact Or.inl (p.refuses_handle _ cause h)
    · rcases bind_eq_error_iff.mp h with h | ⟨_, -, h⟩
      · exact Or.inr ⟨method, hmethod, exists_of_mapM_eq_error h⟩
      · exact nomatch h

theorem bootstrapWith_congr {k : Nat} (hload : ∀ j, load j ≠ .error cause → load' j = load j)
    (h : p.bootstrapWith load k ≠ .error cause) :
    p.bootstrapWith load' k = p.bootstrapWith load k := by
  unfold bootstrapWith at h ⊢
  cases hmethod : p.bootstrap[k]? with
  | none => rfl
  | some method =>
    simp only [hmethod] at h ⊢
    cases hhandle : p.handle method.handle with
    | error cause' => rfl
    | ok handle =>
      rw [hhandle] at h
      have hargs : method.args.mapM load ≠ .error cause := by
        intro heq
        refine h (bind_eq_error_iff.mpr (Or.inr ⟨handle, rfl, ?_⟩))
        exact bind_eq_error_iff.mpr (Or.inl heq)
      show (method.args.mapM load' >>= _) = (method.args.mapM load >>= _)
      rw [mapM_congr_of_ne_error hload hargs]

/-- A constant that is not dynamic takes no arguments. -/
theorem loadWith_static {e : Entry} (hget : p.get i = .ok e)
    (hstatic : ∀ bootstrap nt, e ≠ .dynamic bootstrap nt) : p.loadWith load' i = p.loadWith load i := by
  unfold loadWith
  rw [hget]
  cases e with
  | dynamic bootstrap nt => exact absurd rfl (hstatic bootstrap nt)
  | _ => rfl

/-- A constant that is not dynamic is refused only if a reference is bad. -/
theorem refuses_loadWith_static {e : Entry} (hget : p.get i = .ok e)
    (hstatic : ∀ bootstrap nt, e ≠ .dynamic bootstrap nt) : Refuses (p.loadWith load i) := by
  unfold loadWith
  rw [hget]
  cases e with
  | dynamic bootstrap nt => exact absurd rfl (hstatic bootstrap nt)
  | integer | float | long | double => exact .ok _
  | classRef | string | methodType => exact (p.refuses_utf8 _).bind fun _ => .ok _
  | methodHandle => exact (p.refuses_handle _).bind fun _ => .ok _
  | _ => exact .error rfl

theorem loadWith_dynamic {bootstrap nt : Nat} (hget : p.get i = .ok (.dynamic bootstrap nt)) :
    p.loadWith load i = do
      let (name, desc) ← p.nameAndType nt
      let (h, args) ← p.bootstrapWith load bootstrap
      return .dynamic name desc (some h) args := by
  unfold loadWith
  rw [hget]
  rfl

/-- **Why a constant cannot be resolved**: a reference is bad, or it uses one that cannot be. -/
theorem loadWith_eq_error (h : p.loadWith load i = .error cause) :
    cause.kind? = some .badConstant ∨ ∃ j, p.Uses i j ∧ load j = .error cause := by
  cases hget : p.get i with
  | error cause' =>
    unfold loadWith at h
    rw [hget] at h
    cases h
    exact Or.inl (p.refuses_get i cause hget)
  | ok e =>
    by_cases hdynamic : ∃ bootstrap nt, e = .dynamic bootstrap nt
    · obtain ⟨bootstrap, nt, rfl⟩ := hdynamic
      rw [loadWith_dynamic hget] at h
      rcases bind_eq_error_iff.mp h with h | ⟨_, -, h⟩
      · exact Or.inl (p.refuses_nameAndType nt cause h)
      rcases bind_eq_error_iff.mp h with h | ⟨_, -, h⟩
      · exact (bootstrapWith_eq_error h).imp_right fun ⟨method, hmethod, j, hj, hload⟩ =>
          ⟨j, ⟨bootstrap, nt, method, hget, hmethod, hj⟩, hload⟩
      · exact nomatch h
    · have hstatic : ∀ bootstrap nt, e ≠ .dynamic bootstrap nt := by
        rintro bootstrap nt rfl
        exact hdynamic ⟨bootstrap, nt, rfl⟩
      exact Or.inl (refuses_loadWith_static hget hstatic cause h)

/-- A level that is deeper changes only what has no end. -/
theorem loadWith_congr (hload : ∀ j, load j ≠ .error cause → load' j = load j)
    (h : p.loadWith load i ≠ .error cause) : p.loadWith load' i = p.loadWith load i := by
  cases hget : p.get i with
  | error cause' =>
    unfold loadWith
    rw [hget]
    rfl
  | ok e =>
    by_cases hdynamic : ∃ bootstrap nt, e = .dynamic bootstrap nt
    · obtain ⟨bootstrap, nt, rfl⟩ := hdynamic
      rw [loadWith_dynamic hget] at h ⊢
      rw [loadWith_dynamic hget]
      cases hname : p.nameAndType nt with
      | error cause' => rfl
      | ok nameDesc =>
        rw [hname] at h
        have hbootstrap : p.bootstrapWith load bootstrap ≠ .error cause := by
          intro heq
          refine h (bind_eq_error_iff.mpr (Or.inr ⟨nameDesc, rfl, ?_⟩))
          exact bind_eq_error_iff.mpr (Or.inl heq)
        show (p.bootstrapWith load' bootstrap >>= _) = (p.bootstrapWith load bootstrap >>= _)
        rw [bootstrapWith_congr hload hbootstrap]
    · refine loadWith_static hget ?_
      rintro bootstrap nt rfl
      exact hdynamic ⟨bootstrap, nt, rfl⟩

/-! ## The bound on the depth -/

variable {depth depth' : Nat}

theorem loadableWithin_succ_eq (h : p.loadableWithin depth i ≠ .error .endlessConstant) :
    p.loadableWithin (depth + 1) i = p.loadableWithin depth i := by
  induction depth generalizing i with
  | zero => exact absurd rfl h
  | succ depth ih => exact loadWith_congr (fun j hj => ih hj) h

/-- **An outcome stays what it is** with a larger bound. -/
theorem loadableWithin_of_le (h : p.loadableWithin depth i ≠ .error .endlessConstant)
    (hle : depth ≤ depth') : p.loadableWithin depth' i = p.loadableWithin depth i := by
  induction hle with
  | refl => rfl
  | step _ ih => rw [loadableWithin_succ_eq (ih ▸ h), ih]

/-- A constant that a bound is not enough for uses another. -/
theorem exists_uses (h : p.loadableWithin (depth + 1) i = .error .endlessConstant) :
    ∃ j, p.Uses i j ∧ p.loadableWithin depth j = .error .endlessConstant :=
  (loadWith_eq_error h).resolve_left nofun

/-- **A constant that cannot be resolved** has a bad reference, if the bound is enough. -/
theorem loadableWithin_eq_error (h : p.loadableWithin depth i = .error cause) :
    cause.kind? = some .badConstant ∨ cause = .endlessConstant := by
  induction depth generalizing i with
  | zero =>
    cases h
    exact Or.inr rfl
  | succ depth ih =>
    rcases loadWith_eq_error h with hkind | ⟨j, -, hj⟩
    · exact Or.inl hkind
    · exact ih hj

/-- With each level either nothing changes any more, or there are fewer constants that the bound is not
enough for. -/
theorem stable_or_fewer (p : Pool) (depth : Nat) :
    p.loadableWithin (depth + 2) = p.loadableWithin (depth + 1) ∨
      ∃ pending : Finset Nat, pending.card + depth ≤ p.entries.size ∧
        ∀ i, p.loadableWithin (depth + 1) i = .error .endlessConstant → i ∈ pending := by
  induction depth with
  | zero =>
    refine Or.inr ⟨Finset.range p.entries.size, by simp, fun i hi => ?_⟩
    obtain ⟨j, hj, -⟩ := exists_uses hi
    exact Finset.mem_range.mpr hj.lt
  | succ depth ih =>
    have hstable : p.loadableWithin (depth + 2) = p.loadableWithin (depth + 1) →
        p.loadableWithin (depth + 3) = p.loadableWithin (depth + 2) := congrArg p.loadWith
    rcases ih with heq | ⟨pending, hcard, hopen⟩
    · exact Or.inl (hstable heq)
    by_cases hsettled : ∃ i, p.loadableWithin (depth + 1) i = .error .endlessConstant ∧
        p.loadableWithin (depth + 2) i ≠ .error .endlessConstant
    · -- One constant less, and none more.
      obtain ⟨i, hi, hne⟩ := hsettled
      refine Or.inr ⟨pending.erase i, ?_, fun j hj => Finset.mem_erase.mpr ⟨?_, hopen j ?_⟩⟩
      · rw [Finset.card_erase_of_mem (hopen i hi)]
        have := Finset.card_pos.mpr ⟨i, hopen i hi⟩
        omega
      · rintro rfl
        exact hne hj
      · by_contra hne'
        rw [loadableWithin_succ_eq hne'] at hj
        exact hne' hj
    · refine Or.inl (hstable (funext fun i => ?_))
      by_cases hi : p.loadableWithin (depth + 1) i = .error .endlessConstant
      · rw [hi]
        by_contra hne
        exact hsettled ⟨i, hi, hne⟩
      · exact loadableWithin_succ_eq hi

/-- With the bound that resolution has, nothing changes any more. -/
theorem loadableWithin_stable (hi : p.loadable i = .error .endlessConstant)
    (hle : p.entries.size + 1 ≤ depth) : p.loadableWithin depth i = .error .endlessConstant := by
  rcases p.stable_or_fewer p.entries.size with hstable | ⟨pending, hcard, hopen⟩
  · obtain ⟨k, rfl⟩ := Nat.exists_eq_add_of_le hle
    have hall : p.loadableWithin (p.entries.size + 1 + k) = p.loadableWithin (p.entries.size + 1) := by
      induction k with
      | zero => rfl
      | succ k ih => exact (congrArg p.loadWith (ih (Nat.le_add_right _ _))).trans hstable
    rw [hall]
    exact hi
  · -- There is no constant left for which the bound is not enough.
    have hempty : pending = ∅ := Finset.card_eq_zero.mp (by omega)
    have hmem := hopen i hi
    rw [hempty] at hmem
    exact absurd hmem (Finset.notMem_empty i)

/-- **The bound on the depth is enough**: what a larger or smaller bound gives is what resolution gives. -/
theorem loadable_eq_of_ends (h : p.loadableWithin depth i ≠ .error .endlessConstant) :
    p.loadable i = p.loadableWithin depth i := by
  rcases Nat.le_total depth (p.entries.size + 1) with hle | hle
  · exact loadableWithin_of_le h hle
  · by_cases hi : p.loadable i = .error .endlessConstant
    · exact absurd (loadableWithin_stable hi hle) h
    · exact (loadableWithin_of_le hi hle).symm

/-! ## Constants without end -/

/-- **The resolution of a constant has no end**: no bound on the depth is enough. -/
def Endless (p : Pool) (i : Nat) : Prop :=
  ∀ depth, p.loadableWithin depth i = .error .endlessConstant

theorem endless_iff : p.Endless i ↔ p.loadable i = .error .endlessConstant := by
  constructor
  · exact fun h => h _
  · intro h depth
    by_contra hne
    rw [loadable_eq_of_ends hne] at h
    exact hne h

/-- A constant without end uses another one. -/
theorem Endless.exists_uses (h : p.Endless i) : ∃ j, p.Uses i j ∧ p.Endless j := by
  obtain ⟨j, hj, hopen⟩ := Pool.exists_uses (h (p.entries.size + 2))
  exact ⟨j, hj, endless_iff.mpr hopen⟩

/-- **Constants without end use one another in a circle.** -/
theorem Endless.exists_cycle (h : p.Endless i) :
    ∃ j, Relation.ReflTransGen p.Uses i j ∧ Relation.TransGen p.Uses j j := by
  -- Follow uses from the constant on for ever.
  choose next hnext using fun j : { j // p.Endless j } => j.2.exists_uses
  let follow : { j // p.Endless j } → { j // p.Endless j } := fun j => ⟨next j, (hnext j).2⟩
  let chain : Nat → Nat := fun k => (follow^[k] ⟨i, h⟩).1
  have huses : ∀ k, p.Uses (chain k) (chain (k + 1)) := by
    intro k
    show p.Uses _ (follow^[k + 1] ⟨i, h⟩).1
    rw [Function.iterate_succ_apply']
    exact (hnext _).1
  have hreach : ∀ a k, Relation.ReflTransGen p.Uses (chain a) (chain (a + k)) := by
    intro a k
    induction k with
    | zero => exact .refl
    | succ k ih => exact ih.tail (huses (a + k))
  -- Since the pool is finite, a constant comes back.
  obtain ⟨a, b, hne, heq⟩ := Finite.exists_ne_map_eq_of_infinite
    fun k => (⟨chain k, (huses k).lt⟩ : Fin p.entries.size)
  have hcycle : ∀ a b, a < b → chain a = chain b → Relation.TransGen p.Uses (chain a) (chain a) := by
    intro a b hlt heq
    have hback := hreach (a + 1) (b - (a + 1))
    rw [Nat.add_sub_cancel' hlt, ← heq] at hback
    exact .head' (huses a) hback
  have heq' : chain a = chain b := congrArg Fin.val heq
  have hstart : Relation.ReflTransGen p.Uses i (chain a) := Nat.zero_add a ▸ hreach 0 a
  refine ⟨chain a, hstart, ?_⟩
  rcases Nat.lt_or_gt_of_ne hne with hlt | hlt
  · exact hcycle a b hlt heq'
  · rw [heq']
    exact hcycle b a hlt heq'.symm

end Pool

end StackMap.ClassFile
