import StackMap.Code.Method
import Mathlib.Data.List.Basic

/-!
# `Proofs.Code.Position`: where labels stand

The position of a label is found from the end of the list. A label that is listed has a position; if it is
listed once, its position is the only place where it stands.

## Contents

* `position?_eq_none_iff`, `position?_eq_some_iff`: whether a label has a position, and which.
* `position?_eq_some_iff_of_once`: the position of a label that is listed once.
-/

namespace StackMap.Method

variable {insns : Array Insn} {l : Label} {m : Method} {i n : Nat}

theorem isLabel_iff {insn : Insn} : isLabel l insn ↔ insn = .label l := by
  cases insn with
  | label l' => simp only [isLabel, beq_iff_eq, Insn.label.injEq]
  | _ => simp only [isLabel, Bool.false_eq_true, reduceCtorEq]

/-- The test that the search makes. -/
theorem stands_iff : (insns[n]?.map (isLabel l)).getD false ↔ insns[n]? = some (.label l) := by
  cases insns[n]? with
  | none => simp only [Option.map_none, Option.getD_none, Bool.false_eq_true, reduceCtorEq]
  | some insn => simp only [Option.map_some, Option.getD_some, isLabel_iff, Option.some.injEq]

theorem lastBelow?_eq_some_iff :
    lastBelow? insns l n = some i ↔
      i < n ∧ insns[i]? = some (.label l) ∧ ∀ j, i < j → j < n → insns[j]? ≠ some (.label l) := by
  induction n with
  | zero => simp only [lastBelow?, reduceCtorEq, Nat.not_lt_zero, false_and]
  | succ n ih =>
    unfold lastBelow?
    by_cases hn : insns[n]? = some (.label l)
    · rw [if_pos (stands_iff.mpr hn), Option.some.injEq]
      constructor
      · rintro rfl
        exact ⟨Nat.lt_succ_self n, hn, fun j hij hj => absurd hj (by omega)⟩
      · rintro ⟨hi, -, hlast⟩
        -- Nothing stands behind `i`, so `n` is not behind it.
        by_contra hne
        exact hlast n (by omega) (Nat.lt_succ_self n) hn
    · rw [if_neg (mt stands_iff.mp hn), ih]
      constructor
      · rintro ⟨hi, hlabel, hlast⟩
        refine ⟨Nat.lt_succ_of_lt hi, hlabel, fun j hij hj => ?_⟩
        rcases Nat.lt_succ_iff_lt_or_eq.mp hj with hj | rfl
        · exact hlast j hij hj
        · exact hn
      · rintro ⟨hi, hlabel, hlast⟩
        have hne : i ≠ n := by
          rintro rfl
          exact hn hlabel
        exact ⟨by omega, hlabel, fun j hij hj => hlast j hij (Nat.lt_succ_of_lt hj)⟩

theorem lastBelow?_eq_none_iff :
    lastBelow? insns l n = none ↔ ∀ i < n, insns[i]? ≠ some (.label l) := by
  induction n with
  | zero => simp only [lastBelow?, Nat.not_lt_zero, false_implies, implies_true]
  | succ n ih =>
    unfold lastBelow?
    by_cases hn : insns[n]? = some (.label l)
    · rw [if_pos (stands_iff.mpr hn)]
      constructor
      · exact fun h => nomatch h
      · exact fun h => absurd hn (h n (Nat.lt_succ_self n))
    · rw [if_neg (mt stands_iff.mp hn), ih]
      refine ⟨fun h i hi => ?_, fun h i hi => h i (Nat.lt_succ_of_lt hi)⟩
      rcases Nat.lt_succ_iff_lt_or_eq.mp hi with hi | rfl
      · exact h i hi
      · exact hn

/-- **A label has no position** if it is not listed. -/
theorem position?_eq_none_iff : m.position? l = none ↔ Insn.label l ∉ m.insns := by
  unfold position?
  rw [lastBelow?_eq_none_iff, Array.mem_iff_getElem?, not_exists]
  refine ⟨fun h i hi => ?_, fun h i _ => h i⟩
  have hlt : i < m.insns.size := (Array.getElem?_eq_some_iff.mp hi).1
  exact h i hlt hi

/-- **The position of a label** is the last place where it stands. -/
theorem position?_eq_some_iff :
    m.position? l = some i ↔
      m.insns[i]? = some (.label l) ∧ ∀ j, i < j → m.insns[j]? ≠ some (.label l) := by
  unfold position?
  rw [lastBelow?_eq_some_iff]
  constructor
  · rintro ⟨-, hlabel, hlast⟩
    refine ⟨hlabel, fun j hij hj => ?_⟩
    exact hlast j hij (Array.getElem?_eq_some_iff.mp hj).1 hj
  · rintro ⟨hlabel, hlast⟩
    exact ⟨(Array.getElem?_eq_some_iff.mp hlabel).1, hlabel, fun j hij _ => hlast j hij⟩

/-- **A label that stands once** stands at its position and nowhere else. -/
theorem position?_eq_some_iff_of_once
    (h : ∀ i j : Nat, m.insns[i]? = some (.label l) → m.insns[j]? = some (.label l) → i = j) :
    m.position? l = some i ↔ m.insns[i]? = some (.label l) := by
  rw [position?_eq_some_iff]
  refine ⟨And.left, fun hi => ⟨hi, fun j hij hj => ?_⟩⟩
  exact absurd (h i j hi hj) (Nat.ne_of_lt hij)

end StackMap.Method
