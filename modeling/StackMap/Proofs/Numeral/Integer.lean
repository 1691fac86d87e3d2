import Mathlib.Data.Bool.AllAny
import StackMap.Proofs.ClassFile.Layout
import StackMap.Proofs.Outcome
import StackMap.Text.Blank
import StackMap.Text.LowerCase

/-!
# `Proofs.Numeral.Integer`: whole numbers read back

A whole number is written in base ten, and it is read in the base that its first characters announce. No digits
but those of zero start with a zero, so that no base is announced but for zero, which is the same in base eight.

## Contents

* `signedDigits`, `mem_toText`: the characters of a number.
* `accumulate_toDigits`, `splitBase_toDigits`: digits are read in base ten.
* `readSigned_toText`: a number that fits reads back.
-/

namespace StackMap.Numeral

open ClassFile

/-! ## Characters -/

/-- The characters of whole numbers in base ten. -/
def signedDigits : List Char := ['-', '0', '1', '2', '3', '4', '5', '6', '7', '8', '9']

theorem mem_signedDigits_of_isDigit {c : Char} (h : c.isDigit) : c ∈ signedDigits := by
  have hbounds : 48 ≤ c.toNat ∧ c.toNat ≤ 57 := by
    simp only [Char.isDigit, Bool.and_eq_true, decide_eq_true_eq, ge_iff_le, UInt32.le_iff_toNat_le] at h
    exact h
  have hall : ∀ k : Fin 10, Char.ofNat (48 + k) ∈ signedDigits := by decide
  obtain ⟨hlow, hhigh⟩ := hbounds
  have hmem := hall ⟨c.toNat - 48, by omega⟩
  rwa [show 48 + (c.toNat - 48) = c.toNat by omega, Char.ofNat_toNat] at hmem

theorem isDigit_of_mem_toDigits {n : Nat} {c : Char} (h : c ∈ Nat.toDigits 10 n) : c.isDigit :=
  Nat.isDigit_of_mem_toDigits (by decide) (by decide) h

/-- **A number is written with digits and a minus sign.** -/
theorem mem_toText {n : Int} {c : Char} (h : c ∈ (toText n).toList) : c ∈ signedDigits := by
  cases n with
  | ofNat n =>
    rw [toText, String.toList_ofList] at h
    exact mem_signedDigits_of_isDigit (isDigit_of_mem_toDigits h)
  | negSucc n =>
    rw [toText, String.toList_ofList] at h
    rcases List.mem_cons.mp h with rfl | h
    · decide
    · exact mem_signedDigits_of_isDigit (isDigit_of_mem_toDigits h)

theorem toText_ne_nil (n : Int) : (toText n).toList ≠ [] := by
  cases n with
  | ofNat n =>
    rw [toText, String.toList_ofList]
    exact Nat.toDigits_ne_nil
  | negSucc n =>
    rw [toText, String.toList_ofList]
    exact List.cons_ne_nil _ _

/-- The characters of numbers are in lower case. -/
theorem lower_eq_of_signedDigits {s : List Char} (h : ∀ c ∈ s, c ∈ signedDigits) : Text.lower s = s := by
  have hall : ∀ c ∈ signedDigits, Text.lowerChar c = c := List.all_iff_forall_prop.mp (by decide)
  calc
    s.map Text.lowerChar = s.map id := List.map_congr_left fun c hc => hall c (h c hc)
    _ = s := List.map_id s

/-! ## Digits -/

theorem digitValue?_of_isDigit {c : Char} (h : c.isDigit) :
    digitValue? c = some (c.toNat - 48) ∧ c.toNat - 48 < 10 ∧ c ≠ '_' := by
  have hall : ∀ d ∈ signedDigits, d ≠ '-' →
      digitValue? d = some (d.toNat - 48) ∧ d.toNat - 48 < 10 ∧ d ≠ '_' :=
    List.all_iff_forall_prop.mp (by decide)
  refine hall c (mem_signedDigits_of_isDigit h) ?_
  rintro rfl
  exact absurd h (by decide)

/-- Further digits make a number no smaller. -/
theorem le_ofDigitChars (s : List Char) (n : Nat) : n ≤ Nat.ofDigitChars 10 s n := by
  induction s generalizing n with
  | nil => exact Nat.le_refl n
  | cons c s ih =>
    rw [Nat.ofDigitChars_cons]
    exact Nat.le_trans (by omega) (ih _)

/-- **Digits spell their number**, unless it is too large. By induction on the digits. -/
theorem accumulate_digits {limit n : Nat} {s : List Char} (hs : ∀ c ∈ s, c.isDigit)
    (hle : Nat.ofDigitChars 10 s n ≤ limit) : accumulate 10 limit n s = .ok (Nat.ofDigitChars 10 s n) := by
  induction s generalizing n with
  | nil => rfl
  | cons c s ih =>
    obtain ⟨hc, hrest⟩ := List.forall_mem_cons.mp hs
    obtain ⟨hvalue, hlt, hunderscore⟩ := digitValue?_of_isDigit hc
    have hnext : 10 * n + (c.toNat - '0'.toNat) = n * 10 + (c.toNat - 48) := by
      rw [Nat.mul_comm]
      rfl
    rw [Nat.ofDigitChars_cons, hnext] at hle ⊢
    -- What has been read so far is no larger than the whole number.
    have hfits := Nat.le_trans (le_ofDigitChars s _) hle
    rw [accumulate, if_neg hunderscore, hvalue]
    dsimp only
    rw [if_neg (by omega), if_neg (by omega)]
    exact ih hrest hle

/-- **The first digit is no zero**, unless the number is zero. By induction on the number: all digits but the
last are those of a tenth of it. -/
theorem exists_toDigits_cons {n : Nat} (h : 0 < n) : ∃ c rest, Nat.toDigits 10 n = c :: rest ∧ c ≠ '0' := by
  induction n using Nat.strongRecOn with
  | ind n ih =>
    by_cases hsmall : n < 10
    · have hall : ∀ k : Fin 10, 0 < k.val → Nat.digitChar k ≠ '0' := by decide
      exact ⟨_, [], Nat.toDigits_of_lt_base hsmall, hall ⟨n, hsmall⟩ h⟩
    · obtain ⟨c, rest, hdigits, hc⟩ := ih (n / 10) (by omega) (by omega)
      refine ⟨c, rest ++ [(n % 10).digitChar], ?_, hc⟩
      rw [Nat.toDigits_of_base_le (by decide) (by omega), hdigits]
      rfl

theorem splitBase_of_ne {c : Char} {rest : List Char} (hc : c ≠ '0') :
    splitBase (c :: rest) = (10, c :: rest) := by
  unfold splitBase
  split
  · rename_i heq
    exact absurd (List.cons.inj heq).1 hc
  · rename_i heq
    exact absurd (List.cons.inj heq).1 hc
  · rfl

/-- **An unsigned number reads back.** -/
theorem readUnsigned_toDigits {bits n : Nat} (h : n < Nat.pow 2 bits) :
    readUnsigned bits (Nat.toDigits 10 n) = .ok n := by
  have hdigits : ∀ c ∈ Nat.toDigits 10 n, c.isDigit := fun c hc => isDigit_of_mem_toDigits hc
  have hunderscore : (Nat.toDigits 10 n).contains '_' = false := by
    rw [List.contains_eq_mem, decide_eq_false_iff_not]
    intro hmem
    exact absurd (hdigits _ hmem) (by decide)
  have hempty : ¬ (Nat.toDigits 10 n).isEmpty := by
    rw [List.isEmpty_iff]
    exact Nat.toDigits_ne_nil
  have haccumulate : accumulate (splitBase (Nat.toDigits 10 n)).1 (Nat.pow 2 bits - 1) 0
      (splitBase (Nat.toDigits 10 n)).2 = .ok n := by
    -- A zero in front announces base eight, and no number but zero starts with one.
    by_cases hzero : n = 0
    · subst hzero
      rfl
    · obtain ⟨c, rest, hcons, hc⟩ := exists_toDigits_cons (Nat.pos_of_ne_zero hzero)
      have hfits : Nat.ofDigitChars 10 (Nat.toDigits 10 n) 0 ≤ Nat.pow 2 bits - 1 := by
        rw [Nat.ofDigitChars_ten_toDigits]
        omega
      have hread := accumulate_digits hdigits hfits
      rw [Nat.ofDigitChars_ten_toDigits] at hread
      rw [hcons, splitBase_of_ne hc, ← hcons]
      exact hread
  unfold readUnsigned
  rw [if_neg hempty]
  dsimp only
  rw [haccumulate]
  show (if (Nat.toDigits 10 n).contains '_' && _ then _ else _) = _
  rw [hunderscore, Bool.false_and, if_neg Bool.false_ne_true]

/-- A number behind a minus sign. -/
theorem readSigned_minus {bits n : Nat} {s : List Char} (h : readUnsigned bits s = .ok n)
    (hle : n ≤ Nat.pow 2 (bits - 1)) : readSigned bits ('-' :: s) = .ok (-(n : Int)) := by
  unfold readSigned
  refine bind_eq_ok_iff.mpr ⟨n, h, ?_⟩
  exact (if_pos rfl).trans (if_neg (Nat.not_lt.mpr hle))

/-- A number without a sign. -/
theorem readSigned_of_isDigit {bits n : Nat} {c : Char} {rest : List Char} (hc : c.isDigit)
    (h : readUnsigned bits (c :: rest) = .ok n) (hlt : n < Nat.pow 2 (bits - 1)) :
    readSigned bits (c :: rest) = .ok n := by
  have hminus : c ≠ '-' := by
    rintro rfl
    exact absurd hc (by decide)
  have hplus : c ≠ '+' := by
    rintro rfl
    exact absurd hc (by decide)
  unfold readSigned
  split
  · rename_i heq
    exact absurd (List.cons.inj heq).1 hplus
  · rename_i heq
    exact absurd (List.cons.inj heq).1 hminus
  · refine bind_eq_ok_iff.mpr ⟨n, h, ?_⟩
    exact (if_neg fun heq => hminus (Option.some.inj heq)).trans (if_neg (Nat.not_le.mpr hlt))

/-- **A signed number that fits reads back.** -/
theorem readSigned_toText {bits : Nat} (hbits : 0 < bits) {n : Int} (h : FitsIn bits n) :
    readSigned bits (toText n).toList = .ok n := by
  have hdouble := pow_eq_double hbits
  obtain ⟨hlow, hhigh⟩ := h
  cases n with
  | ofNat n =>
    rw [Int.ofNat_eq_natCast] at hlow hhigh
    have hfits : n < Nat.pow 2 bits := by
      rw [hdouble]
      omega
    have hread := readUnsigned_toDigits hfits
    obtain ⟨c, rest, hcons⟩ := List.exists_cons_of_ne_nil (Nat.toDigits_ne_nil (n := n) (b := 10))
    have hdigit : c.isDigit := isDigit_of_mem_toDigits (hcons ▸ List.mem_cons_self)
    rw [hcons] at hread
    rw [toText, String.toList_ofList, hcons]
    exact readSigned_of_isDigit hdigit hread (by omega)
  | negSucc n =>
    have hfits : n + 1 < Nat.pow 2 bits := by
      rw [hdouble]
      omega
    have hread := readUnsigned_toDigits hfits
    rw [toText, String.toList_ofList]
    exact readSigned_minus hread (by omega)

end StackMap.Numeral
