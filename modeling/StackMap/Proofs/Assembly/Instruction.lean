import StackMap.Assembly.Assemble
import StackMap.Proofs.Code.WellFormed
import StackMap.Proofs.Outcome

/-!
# `Proofs.Assembly.Instruction`: the instructions that lines give

A line of assembly names an instruction by its mnemonic, which may be that of a short or a long form. What it
gives is well-formed: the operation code is put into general form first, and numbers are read in the range of
their fields.

## Contents

* `Numeral.readUnsigned_lt`, `Numeral.fitsIn_of_readSigned`: the ranges of numbers.
* `Builds`: outcomes that are well-formed instructions; `builds_general`: those of operands.
* `wellFormed_of_instruction`: the instruction of a line is well-formed.
-/

namespace StackMap

open ClassFile

/-! ## Numbers -/

namespace Numeral

theorem accumulate_le {base limit n m : Nat} {s : List Char} (hn : n ≤ limit)
    (h : accumulate base limit n s = .ok m) : m ≤ limit := by
  induction s generalizing n with
  | nil =>
    cases h
    exact hn
  | cons c s ih =>
    unfold accumulate at h
    split at h
    · exact ih hn h
    split at h
    · cases h
    split at h
    · cases h
    split at h
    · cases h
    · exact ih (by omega) h

/-- **An unsigned number has no more bits** than it may have. -/
theorem readUnsigned_lt {bits n : Nat} {s : List Char} (h : readUnsigned bits s = .ok n) :
    n < Nat.pow 2 bits := by
  have hpos : 0 < Nat.pow 2 bits := Nat.pow_pos Nat.zero_lt_two
  unfold readUnsigned at h
  split at h
  · cases h
  obtain ⟨m, hm, h⟩ := bind_eq_ok_iff.mp h
  split at h
  · cases h
  · cases h
    have hle := accumulate_le (Nat.zero_le _) hm
    omega

/-- **A signed number fits its bits.** -/
theorem fitsIn_of_readSigned {bits : Nat} {n : Int} {s : List Char} (h : readSigned bits s = .ok n) :
    FitsIn bits n := by
  obtain ⟨m, -, h⟩ := bind_eq_ok_iff.mp h
  unfold FitsIn
  have hpos : 0 < Nat.pow 2 (bits - 1) := Nat.pow_pos Nat.zero_lt_two
  split at h
  · split at h
    · cases h
    · cases h
      omega
  · split at h
    · cases h
    · cases h
      omega

end Numeral

namespace Assembly

variable {op : Opcode} {insn : Insn} {operands : List Char} {args : List (List Char)}

theorem localVariable_lt {s : List Char} {n : Nat} (h : localVariable s = .ok n) : n < 65536 :=
  Numeral.readUnsigned_lt (mapError_eq_ok_iff.mp h)

theorem fitsIn_of_integer {bits : Nat} {s : List Char} {n : Int} (h : integer bits s = .ok n) :
    FitsIn bits n := Numeral.fitsIn_of_readSigned (mapError_eq_ok_iff.mp h)

theorem dimensionCount_range {s : List Char} {n : Int} (h : dimensionCount s = .ok n) :
    1 ≤ n ∧ n ≤ 255 := by
  unfold dimensionCount at h
  split at h
  · split at h
    · cases h
      assumption
    · cases h
  · cases h

/-! ## Outcomes -/

/-- **Outcomes that are well-formed instructions**, unless they are errors. -/
def Builds (x : Except OperandFlaw Insn) : Prop := ∀ insn, x = .ok insn → insn.WellFormed

section

variable {x y : Except OperandFlaw Insn}

theorem builds_ok (h : insn.WellFormed) : Builds (.ok insn) := by
  rintro insn ⟨⟩
  exact h

theorem builds_error (flaw : OperandFlaw) : Builds (.error flaw) := by
  rintro insn ⟨⟩

theorem builds_bind {α : Type} {x : Except OperandFlaw α} {k : α → Except OperandFlaw Insn}
    (h : ∀ a, x = .ok a → Builds (k a)) : Builds (x >>= k) := by
  intro insn hinsn
  obtain ⟨a, ha, hk⟩ := bind_eq_ok_iff.mp hinsn
  exact h a ha insn hk

end

/-! ## Switches -/

/-- **A `tableswitch` has a target for each number of its range**, which ends within 32 bits. -/
theorem builds_tableSwitch : Builds (tableSwitch args) := by
  unfold tableSwitch
  split
  · rename_i least dflt first rest
    refine builds_bind fun low hlow => iteInduction (fun _ => builds_error _) fun hhigh => builds_ok ?_
    refine .of_admits (f := .tableSwitch) rfl rfl ?_
    have hfits : FitsIn 32 low := fitsIn_of_integer hlow
    rw [List.length_map, List.length_cons] at hhigh
    have hfits' : FitsIn 32 (low + (rest.length + 1 : Nat) - 1) := by
      unfold FitsIn at hfits ⊢
      simp only [Nat.pow_eq] at hfits ⊢
      omega
    simp only [Insn.OperandsFit, List.length_map, List.length_cons, toInt_ofInt hfits, toInt_ofInt hfits']
    omega
  · exact builds_error _

/-- **A `lookupswitch` has a target for each key.** -/
theorem builds_lookupSwitch : Builds (lookupSwitch args) := by
  unfold lookupSwitch
  split
  · refine builds_bind fun cases _ => builds_ok (.of_admits (f := .lookupSwitch) rfl rfl ?_)
    simp only [Insn.OperandsFit, List.length_map]
  · exact builds_error _

theorem builds_invocation (hop : op.isMethodCall) : Builds (invocation op args) := by
  unfold invocation
  split
  · exact builds_ok (.of_admits (f := .method) hop rfl trivial)
  · exact iteInduction (fun _ => builds_ok (.of_admits (f := .method) hop rfl trivial))
      fun _ => builds_error _
  · exact builds_error _

/-! ## Instructions -/

/-- A code with a mnemonic that is in general form goes with a kind of node. -/
theorem exists_kind_of_general (hop : op.between 0 201) (hgeneral : op.normalize = (op, none))
    (hnarrow : op ≠ .wide) : ∃ f : Format, f.kind?.isSome ∧ f.admits op := by
  have hbyte : op.between 0 255 := Opcode.between_byte hop (by decide) (by decide)
  have hkind := Opcode.forall_byte
    (P := fun op => op.between 0 201 → op.normalize = (op, none) → op ≠ .wide → op.kind?.isSome)
    (by decide +kernel) hbyte hop hgeneral hnarrow
  exact ⟨_, hkind, admits_formatOf hbyte⟩

/-- **An operation code in general form with its operands** gives a well-formed instruction. One case for each
kind of operands. -/
theorem builds_general (hop : op.between 0 201) (hgeneral : op.normalize = (op, none))
    (hnarrow : op ≠ .wide) : Builds (general op operands args) := by
  unfold general
  refine iteInduction (fun hint => ?int) fun hint => ?_
  case int =>
    split
    · refine builds_bind fun value _ => builds_ok ?_
      rcases hint with rfl | rfl
      · exact .of_admits (f := .bipush) rfl rfl trivial
      · exact .of_admits (f := .sipush) rfl rfl trivial
    · exact builds_error _
  refine iteInduction (fun hnewarray => ?newarray) fun hnewarray => ?_
  case newarray =>
    subst hnewarray
    split
    · exact builds_bind fun tag _ => builds_ok (.of_admits (f := .newarray) rfl rfl trivial)
    · exact builds_error _
  refine iteInduction (fun _ => ?ldc) fun hldc => ?_
  case ldc => exact builds_bind fun c _ => builds_ok (.of_admits (f := .ldc) rfl rfl trivial)
  refine iteInduction (fun hvar => ?var) fun hvar => ?_
  case var =>
    have hadmits : Format.admits .var op := by
      simpa only [Format.admits, Bool.or_eq_true, decide_eq_true_eq, or_assoc] using hvar
    split
    · refine builds_bind fun index hindex => builds_ok ?_
      have hlt := localVariable_lt hindex
      exact .of_admits hadmits rfl ⟨Int.natCast_nonneg _, by omega⟩
    · exact builds_error _
  refine iteInduction (fun _ => ?iinc) fun hiinc => ?_
  case iinc =>
    split
    · refine builds_bind fun index hindex => builds_bind fun amount _ => builds_ok ?_
      have hlt := localVariable_lt hindex
      exact .of_admits (f := .iinc) rfl rfl ⟨Int.natCast_nonneg _, by omega⟩
    · exact builds_error _
  refine iteInduction (fun hjump => ?jump) fun hjump => ?_
  case jump =>
    split
    · exact builds_ok (.of_admits (f := .jump) hjump rfl trivial)
    · exact builds_error _
  refine iteInduction (fun _ => builds_tableSwitch) fun htable => ?_
  refine iteInduction (fun _ => builds_lookupSwitch) fun hlookup => ?_
  refine iteInduction (fun hfield => ?field) fun hfield => ?_
  case field =>
    split
    · exact builds_ok (.of_admits (f := .field) hfield rfl trivial)
    · exact builds_error _
  refine iteInduction builds_invocation fun hmethod => ?_
  refine iteInduction (fun _ => ?dynamic) fun hdynamic => ?_
  case dynamic =>
    split
    · exact builds_ok (.of_admits (f := .dynamic) rfl rfl trivial)
    · exact builds_error _
  refine iteInduction (fun htype => ?type) fun htype => ?_
  case type =>
    have hadmits : Format.admits .type op := by
      simpa only [Format.admits, Bool.or_eq_true, decide_eq_true_eq, or_assoc] using htype
    split
    · exact builds_ok (.of_admits hadmits rfl trivial)
    · exact builds_error _
  refine iteInduction (fun _ => ?multi) fun hmulti => ?_
  case multi =>
    split
    · refine builds_bind fun dimensions hdimensions => builds_ok ?_
      exact .of_admits (f := .multiArray) rfl rfl (dimensionCount_range hdimensions)
    · exact builds_error _
  -- Only the codes without operands are left.
  have halone : standsAlone op := by
    obtain ⟨f, hkind, hadmits⟩ := exists_kind_of_general hop hgeneral hnarrow
    cases f with
    | plain => exact hadmits
    | bipush => exact absurd (.inl (of_decide_eq_true hadmits)) hint
    | sipush => exact absurd (.inr (of_decide_eq_true hadmits)) hint
    | ldcLong | varShort | jumpLong | wide | unknown => exact absurd hkind Bool.false_ne_true
    | _ =>
      simp only [Format.admits, Bool.or_eq_true, decide_eq_true_eq, or_assoc] at hadmits
      contradiction
  split
  · exact builds_ok (.of_admits (f := .plain) halone rfl trivial)
  · exact builds_error _

theorem between_of_ofMnemonic? {mnemonic : String} (h : Opcode.ofMnemonic? mnemonic = some op) :
    op.between 0 201 := by
  unfold Opcode.ofMnemonic? at h
  obtain ⟨code, hcode, rfl⟩ := Option.map_eq_some_iff.mp h
  obtain ⟨i, hi, hcast⟩ := Option.bind_eq_some_iff.mp hcode
  cases hcast
  have hlt : i < Opcode.mnemonics.size := (Array.findIdx?_eq_some_iff_getElem.mp hi).1
  have hsize : Opcode.mnemonics.size = 202 := rfl
  simp only [Opcode.between, Bool.and_eq_true, decide_eq_true_eq]
  omega

/-- **What general form a code has**: that of a short form is a load or a store, and any other has no short
or long form of its own. -/
theorem normalize_outcome (hop : op.between 0 201) (hnarrow : op ≠ .wide) :
    (∃ general index, op.normalize = (general, some index) ∧ (general.isLoad || general.isStore) ∧
        index ≤ 3) ∨
      ∃ general, op.normalize = (general, none) ∧ general.between 0 201 ∧
        general.normalize = (general, none) ∧ general ≠ .wide := by
  have hbyte : op.between 0 255 := Opcode.between_byte hop (by decide) (by decide)
  by_cases hshort : op.between 0x1a 0x2d || op.between 0x3b 0x4e
  · obtain ⟨general, index, hgeneral, hindex, -, hnormalize⟩ := Opcode.exists_short hshort
    exact .inl ⟨general, index, hnormalize, hgeneral, hindex⟩
  · have hnone := Opcode.forall_byte (P := fun op => ¬ (op.between 0x1a 0x2d || op.between 0x3b 0x4e) →
        op.normalize = (op.normalize.1, none)) (by decide +kernel) hbyte hshort
    have hrange := Opcode.forall_byte (P := fun op => op.between 0 201 → op ≠ .wide →
        op.normalize.1.between 0 201 ∧ op.normalize.1 ≠ .wide) (by decide +kernel) hbyte hop hnarrow
    have hself := Opcode.forall_byte (P := fun op => op.normalize.1.normalize = (op.normalize.1, none))
      (by decide +kernel) hbyte
    exact .inr ⟨op.normalize.1, hnone, hrange.1, hself, hrange.2⟩

/-- **The instruction of a line is well-formed.** -/
theorem wellFormed_of_instruction {line : List Char} (h : instruction line = .ok insn) :
    insn.WellFormed := by
  unfold instruction at h
  dsimp only at h
  split at h
  · cases h
  rename_i op hop
  split at h
  · cases h
  rename_i hnarrow
  have hrange := between_of_ofMnemonic? hop
  rcases normalize_outcome hrange hnarrow with
    ⟨general, index, hnormalize, hload, hindex⟩ | ⟨general, hnormalize, hrange, hself, hnarrow⟩
  · rw [hnormalize] at h
    dsimp only at h
    split at h
    · cases h
      exact .of_admits (f := .var) (Bool.or_eq_true_iff.mpr (.inl hload)) rfl
        ⟨Int.natCast_nonneg _, by omega⟩
    · cases h
  · rw [hnormalize] at h
    exact builds_general hrange hself hnarrow insn (mapError_eq_ok_iff.mp h)

end Assembly

end StackMap
