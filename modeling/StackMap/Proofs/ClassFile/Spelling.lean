import Mathlib.Data.List.Forall2
import StackMap.Proofs.ClassFile.Encoding

/-!
# `Proofs.ClassFile.Spelling`: what a reading has taken

`Reader.Reads` says that a reader accepts an encoding. The converse is that it accepts nothing else: what
it has taken when it succeeds is an encoding of its result. This too is closed under composition. Where a
format allows several encodings of one value, the relation between bytes and values is no function.

## Contents

* `Reader.Spells`: the bytes that a successful reading has taken, related to its result.
* `FitsIn`, `residue`, `i1`, `i2`, `i4`: signed numbers and their bytes.
* `reads_s1`, …, `spells_u1`, …: the primitive readers, both ways.
-/

namespace StackMap.ClassFile

open Build

namespace Reader

variable {α β ι : Type} {r : Reader α} {k : α → Reader β} {P Q : List UInt8 → α → Prop}
  {R : List UInt8 → β → Prop}

/-- **What a reading has taken**: if it succeeds, then the bytes in front of what it leaves are related to
its result. -/
def Spells (r : Reader α) (P : List UInt8 → α → Prop) : Prop :=
  ∀ c a c', r c = .ok (a, c') →
    ∃ used, c.rest = used ++ c'.rest ∧ c'.offset = c.offset + used.length ∧ P used a

namespace Spells

theorem mono (h : r.Spells P) (hPQ : ∀ used a, P used a → Q used a) : r.Spells Q := by
  intro c a c' hr
  obtain ⟨used, hrest, hoffset, hP⟩ := h c a c' hr
  exact ⟨used, hrest, hoffset, hPQ used a hP⟩

theorem pure {a : α} (h : P [] a) : (Pure.pure a : Reader α).Spells P := by
  intro c a' c' hr
  cases hr
  exact ⟨[], rfl, rfl, h⟩

theorem throw {e : ClassError} : (MonadExcept.throw e : Reader α).Spells P :=
  fun _ _ _ hr => nomatch hr

theorem throw_bind {e : ClassError} : ((MonadExcept.throw e : Reader α) >>= k).Spells R :=
  fun _ _ _ hr => nomatch hr

/-- **Readings one behind the other**: the second one is given what the first one has taken. -/
theorem bind (h : r.Spells P)
    (hk : ∀ a used, P used a → (k a).Spells fun used' b => R (used ++ used') b) :
    (r >>= k).Spells R := by
  intro c b c' hr
  obtain ⟨a, mid, ha, hb⟩ := bind_ok_iff.mp hr
  obtain ⟨used, hrest, hoffset, hP⟩ := h c a mid ha
  obtain ⟨used', hrest', hoffset', hR⟩ := hk a used hP mid b c' hb
  refine ⟨used ++ used', ?_, ?_, hR⟩
  · rw [hrest, hrest', List.append_assoc]
  · rw [hoffset', hoffset, List.length_append, Nat.add_assoc]

/-- What is made of a result takes no bytes. -/
theorem map {f : α → β} (h : r.Spells fun used a => R used (f a)) :
    (r >>= fun a => Pure.pure (f a)).Spells R := by
  refine h.bind fun a used hR => .pure ?_
  rwa [List.append_nil]

theorem ite {p : Prop} [Decidable p] {r' : Reader α} (h : p → r.Spells P) (h' : ¬ p → r'.Spells P) :
    (if p then r else r').Spells P := by
  split
  · exact h ‹_›
  · exact h' ‹_›

theorem ofExcept {x : Except FormatError α} (h : ∀ a, x = .ok a → P [] a) :
    (Reader.ofExcept x).Spells P := by
  cases x with
  | ok a => exact pure (h a rfl)
  | error cause => exact throw

/-- An outcome takes no bytes. -/
theorem after {x : Except FormatError α} (h : ∀ a, x = .ok a → (k a).Spells R) :
    (Reader.ofExcept x >>= k).Spells R := by
  cases x with
  | ok a => exact h a rfl
  | error cause => exact throw_bind

theorem ofExceptIn {part : Context} {x : Except FormatError α} (h : ∀ a, x = .ok a → P [] a) :
    (Reader.ofExceptIn part x).Spells P := by
  cases x with
  | ok a => exact pure (h a rfl)
  | error cause => exact throw

theorem after_liftM {x : Except ClassError α} (h : ∀ a, x = .ok a → (k a).Spells R) :
    ((MonadLiftT.monadLift x : Reader α) >>= k).Spells R := by
  cases x with
  | ok a => exact h a rfl
  | error e => exact throw_bind

/-- **A repetition** has taken one encoding after the other. -/
theorem times {f : ι → List UInt8} {S : ι → α → Prop}
    (h : r.Spells fun used a => ∃ x, used = f x ∧ S x a) (n : Nat) :
    (r.times n).Spells fun used l =>
      l.length = n ∧ ∃ xs, used = xs.flatMap f ∧ List.Forall₂ S xs l := by
  induction n with
  | zero => exact pure ⟨rfl, [], rfl, .nil⟩
  | succ n ih =>
    refine h.bind ?_
    rintro a _ ⟨x, rfl, hx⟩
    refine ih.bind ?_
    rintro l _ ⟨hlength, xs, rfl, hxs⟩
    refine pure ⟨by rw [List.length_cons, hlength], x :: xs, ?_, .cons hx hxs⟩
    rw [List.append_nil, List.flatMap_cons]

/-- A repetition of a reading whose result is given by what it has taken. -/
theorem times_map {f : ι → List UInt8} {p : ι → Prop} {g : ι → α}
    (h : r.Spells fun used a => ∃ x, used = f x ∧ p x ∧ a = g x) (n : Nat) :
    (r.times n).Spells fun used l =>
      l.length = n ∧ ∃ xs : List ι, used = xs.flatMap f ∧ (∀ x ∈ xs, p x) ∧ l = xs.map g := by
  refine (times (S := fun x a => p x ∧ a = g x) h n).mono ?_
  rintro used l ⟨hlength, xs, hused, hxs⟩
  refine ⟨hlength, xs, hused, ?_⟩
  clear hlength hused
  induction hxs with
  | nil => exact ⟨nofun, rfl⟩
  | cons hx _ ih => exact ⟨List.forall_mem_cons.mpr ⟨hx.1, ih.1⟩, by rw [hx.2, ih.2, List.map_cons]⟩

/-- What has been read from a byte string is a part of it at its start. -/
theorem exists_of_runOn (h : r.Spells P) {data : List UInt8} {a : α} (hr : r.runOn data = .ok a) :
    ∃ used rest, data = used ++ rest ∧ P used a := by
  unfold Reader.runOn at hr
  split at hr
  · rename_i c hc
    cases hr
    obtain ⟨used, hrest, -, hP⟩ := h _ _ _ hc
    exact ⟨used, c.rest, hrest, hP⟩
  · exact nomatch hr

end Spells

/-! ## Unsigned numbers and blocks -/

/-- One byte. -/
theorem reads_u1_of_lt {n : Nat} (h : n < 256) : u1.Reads [n.toUInt8] n := by
  have hread := reads_u1 n.toUInt8
  rwa [Nat.toUInt8_eq, UInt8.toNat_ofNat_of_lt' h] at hread

theorem reads_skip {data : List UInt8} {n : Nat} (h : data.length = n) : (skip n).Reads data () :=
  (reads_bytes h).map fun _ => ()

theorem Reads.ofExcept {x : Except FormatError α} {a : α} (h : x = .ok a) :
    (Reader.ofExcept x).Reads [] a := by
  rw [h]
  exact .pure a

theorem spells_u1 : u1.Spells fun used n => n < 256 ∧ used = [n.toUInt8] := by
  rintro ⟨rest, offset⟩ n c' h
  match rest, h with
  | a :: rest, h =>
    cases h
    refine ⟨[a], rfl, rfl, a.toNat_lt, ?_⟩
    rw [Nat.toUInt8_eq, UInt8.ofNat_toNat]

/-- A byte is the last one of a larger number. -/
theorem toUInt8_mul_add (n : Nat) (a : UInt8) : (n * 256 + a.toNat).toUInt8 = a := by
  rw [← UInt8.toNat_inj, Nat.toUInt8_eq, UInt8.toNat_ofNat', Nat.mul_add_mod_self_right,
    Nat.mod_eq_of_lt a.toNat_lt]

/-- The two bytes of a number, whose high and low part are given. -/
theorem b2_mul_add (a b : UInt8) : b2 (a.toNat * 256 + b.toNat).toUInt16 = [a, b] := by
  have ha := a.toNat_lt
  have hb := b.toNat_lt
  have hn : (a.toNat * 256 + b.toNat).toUInt16.toNat = a.toNat * 256 + b.toNat :=
    UInt16.toNat_ofNat_of_lt' (by simp only [UInt16.size]; omega)
  have hhigh : (a.toNat * 256 + b.toNat) / 256 = a.toNat := by omega
  rw [b2, hn, hhigh, toUInt8_mul_add, Nat.toUInt8_eq, UInt8.ofNat_toNat]

/-- Four bytes are the two halves of a number. -/
theorem b4_mul_add {high low : Nat} (hhigh : high < 65536) (hlow : low < 65536) :
    b4 (high * 65536 + low).toUInt32 = b2 high.toUInt16 ++ b2 low.toUInt16 := by
  have hn : (high * 65536 + low).toUInt32.toNat = high * 65536 + low :=
    UInt32.toNat_ofNat_of_lt' (by simp only [UInt32.size]; omega)
  have hdiv : (high * 65536 + low) / 65536 = high := by omega
  have hmod : (high * 65536 + low).toUInt16 = low.toUInt16 := by
    rw [← UInt16.toNat_inj, Nat.toUInt16_eq, Nat.toUInt16_eq, UInt16.toNat_ofNat',
      UInt16.toNat_ofNat']
    omega
  rw [b4, hn, hdiv, hmod]

theorem spells_u2 : u2.Spells fun used n => n < 65536 ∧ used = b2 n.toUInt16 := by
  rintro ⟨rest, offset⟩ n c' h
  match rest, h with
  | a :: b :: rest, h =>
    cases h
    have ha := a.toNat_lt
    have hb := b.toNat_lt
    exact ⟨[a, b], rfl, rfl, by omega, (b2_mul_add a b).symm⟩

theorem spells_u4 : u4.Spells fun used n => n < 0x100000000 ∧ used = b4 n.toUInt32 := by
  rintro ⟨rest, offset⟩ n c' h
  match rest, h with
  | a :: b :: c :: d :: rest, h =>
    simp only [u4_apply, Except.ok.injEq, Prod.mk.injEq] at h
    obtain ⟨rfl, rfl⟩ := h
    have ha := a.toNat_lt
    have hb := b.toNat_lt
    have hc := c.toNat_lt
    have hd := d.toNat_lt
    refine ⟨[a, b, c, d], rfl, rfl, by omega, ?_⟩
    rw [b4_mul_add (by omega) (by omega), b2_mul_add, b2_mul_add]
    rfl

theorem spells_bytes (n : Nat) : (bytes n).Spells fun used block => block.length = n ∧ used = block := by
  intro c block c' h
  obtain ⟨hlength, hrest, hoffset⟩ := bytes_ok_iff.mp h
  exact ⟨block, hrest, hlength ▸ hoffset, hlength, rfl⟩

theorem spells_skip (n : Nat) : (skip n).Spells fun used _ => used.length = n :=
  .map ((spells_bytes n).mono fun _ _ ⟨hlength, hused⟩ => hused ▸ hlength)

end Reader

/-! ## Signed numbers -/

/-- **A number fits a signed field** of the given number of bits. -/
def FitsIn (bits : Nat) (n : Int) : Prop :=
  -(Nat.pow 2 (bits - 1) : Int) ≤ n ∧ n < Nat.pow 2 (bits - 1)

instance (bits : Nat) (n : Int) : Decidable (FitsIn bits n) := inferInstanceAs (Decidable (_ ∧ _))

/-- The number without sign that stands for a number in two's complement. -/
def residue (bits : Nat) (n : Int) : Nat := (n % Nat.pow 2 bits).toNat

theorem pow_eq_double {bits : Nat} (h : 0 < bits) : Nat.pow 2 bits = 2 * Nat.pow 2 (bits - 1) := by
  obtain ⟨k, rfl⟩ := Nat.exists_eq_add_of_lt h
  rw [Nat.zero_add, Nat.add_sub_cancel]
  exact (Nat.pow_succ (n := 2) (m := k)).trans (Nat.mul_comm _ _)

theorem residue_lt (bits : Nat) (n : Int) : residue bits n < Nat.pow 2 bits := by
  have hpos : 0 < Nat.pow 2 bits := Nat.pow_pos Nat.zero_lt_two
  have hnonneg := Int.emod_nonneg n (show (Nat.pow 2 bits : Int) ≠ 0 by omega)
  have hlt := Int.emod_lt_of_pos n (show (0 : Int) < Nat.pow 2 bits by omega)
  unfold residue
  omega

/-- **A number that fits is given back.** -/
theorem signed_residue {bits : Nat} (hbits : 0 < bits) {n : Int} (h : FitsIn bits n) :
    Reader.signed bits (residue bits n) = n := by
  obtain ⟨hlow, hhigh⟩ := h
  have hdouble := pow_eq_double hbits
  unfold Reader.signed residue
  generalize Nat.pow 2 (bits - 1) = half at *
  rw [hdouble]
  rcases Int.lt_or_le n 0 with hneg | hnonneg
  · have hmod : n % ((2 * half : Nat) : Int) = n + 2 * half := by
      rw [← Int.add_emod_right, Int.emod_eq_of_lt (by omega) (by omega)]
      omega
    rw [hmod, if_neg (by omega)]
    omega
  · rw [Int.emod_eq_of_lt hnonneg (by omega), if_pos (by omega)]
    omega

/-- **Every number is one that fits.** -/
theorem residue_signed {bits : Nat} (hbits : 0 < bits) {m : Nat} (h : m < Nat.pow 2 bits) :
    FitsIn bits (Reader.signed bits m) ∧ residue bits (Reader.signed bits m) = m := by
  have hdouble := pow_eq_double hbits
  unfold FitsIn Reader.signed residue
  generalize Nat.pow 2 (bits - 1) = half at *
  rw [hdouble] at h ⊢
  split
  · refine ⟨by omega, ?_⟩
    rw [Int.emod_eq_of_lt (by omega) (by omega)]
    omega
  · refine ⟨by omega, ?_⟩
    rw [Int.sub_emod_right, Int.emod_eq_of_lt (by omega) (by omega)]
    omega

/-- A signed number in one byte. -/
def i1 (n : Int) : List UInt8 := [(residue 8 n).toUInt8]

/-- A signed number in two bytes. -/
def i2 (n : Int) : List UInt8 := b2 (residue 16 n).toUInt16

/-- A signed number in four bytes. -/
def i4 (n : Int) : List UInt8 := b4 (residue 32 n).toUInt32

namespace Reader

variable {n : Int}

theorem reads_s1 (h : FitsIn 8 n) : s1.Reads (i1 n) n := by
  have hread := (reads_u1_of_lt (residue_lt 8 n)).map (signed 8)
  rwa [signed_residue (by decide) h] at hread

theorem reads_s2 (h : FitsIn 16 n) : s2.Reads (i2 n) n := by
  have hread := (reads_u2_of_lt (residue_lt 16 n)).map (signed 16)
  rwa [signed_residue (by decide) h] at hread

theorem reads_s4 (h : FitsIn 32 n) : s4.Reads (i4 n) n := by
  have hread := (reads_u4_of_lt (residue_lt 32 n)).map (signed 32)
  rwa [signed_residue (by decide) h] at hread

theorem spells_s1 : s1.Spells fun used n => FitsIn 8 n ∧ used = i1 n := by
  refine .map (spells_u1.mono ?_)
  rintro _ m ⟨hm, rfl⟩
  obtain ⟨hfits, hresidue⟩ := residue_signed (show 0 < 8 by decide) hm
  exact ⟨hfits, by rw [i1, hresidue]⟩

theorem spells_s2 : s2.Spells fun used n => FitsIn 16 n ∧ used = i2 n := by
  refine .map (spells_u2.mono ?_)
  rintro _ m ⟨hm, rfl⟩
  obtain ⟨hfits, hresidue⟩ := residue_signed (show 0 < 16 by decide) hm
  exact ⟨hfits, by rw [i2, hresidue]⟩

theorem spells_s4 : s4.Spells fun used n => FitsIn 32 n ∧ used = i4 n := by
  refine .map (spells_u4.mono ?_)
  rintro _ m ⟨hm, rfl⟩
  obtain ⟨hfits, hresidue⟩ := residue_signed (show 0 < 32 by decide) hm
  exact ⟨hfits, by rw [i4, hresidue]⟩

end Reader

end StackMap.ClassFile
