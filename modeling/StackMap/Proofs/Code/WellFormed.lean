import StackMap.Proofs.ClassFile.Layout

/-!
# `Proofs.Code.WellFormed`: instructions in general form

The parts of the analysis each divide the operation codes into ranges of their own. On a well-formed
instruction they agree: its code is not that of a short or a long form, the node is of the kind that the code
goes with, and the operands fit. Such an instruction runs on every frame whose slots hold values, but for the
load from an array that has no component.

## Contents

* `Format.kind?`, `Opcode.kind?`: the kinds of nodes that operation codes go with.
* `Insn.WellFormed`: instructions in general form; `Insn.WellFormed.fault_eq`: what can go wrong with one.
* `Encodes.wellFormed`: what is encoded is well-formed.
-/

namespace StackMap

open ClassFile

/-- The kind of node for operands of a format. Short and long forms have none, nor has `wide`. -/
def ClassFile.Format.kind? : Format → Option Insn.Kind
  | .plain => some .plain
  | .bipush | .sipush | .newarray => some .int
  | .ldc => some .ldc
  | .var => some .var
  | .iinc => some .iinc
  | .jump => some .jump
  | .tableSwitch => some .tableSwitch
  | .lookupSwitch => some .lookupSwitch
  | .field => some .field
  | .method => some .method
  | .dynamic => some .dynamic
  | .type => some .type
  | .multiArray => some .multiArray
  | .ldcLong | .varShort | .jumpLong | .wide | .unknown => none

/-- **The kind of node that an operation code goes with.** -/
def Opcode.kind? (op : Opcode) : Option Insn.Kind := (formatOf op).kind?

namespace Insn

/-- **The operands fit**: a local variable has a number of two bytes, an array that is made at once has 1 to 255
dimensions, a `tableswitch` has a target for each number of its range, and a `lookupswitch` has one for each
key. -/
def OperandsFit : Insn → Prop
  | .var _ index | .iinc index _ => 0 ≤ index ∧ index ≤ 65535
  | .multiArray _ dimensions => 1 ≤ dimensions ∧ dimensions ≤ 255
  | .tableSwitch low high _ labels => labels.length = high.toInt - low.toInt + 1 ∧ 1 ≤ labels.length
  | .lookupSwitch _ keys labels => keys.length = labels.length
  | _ => True

/-- **Instructions in general form.** -/
structure WellFormed (insn : Insn) : Prop where
  /-- The code is not that of a short or a long form. -/
  general : insn.opcode.normalize = (insn.opcode, none)
  /-- Nor is it `wide`. -/
  narrow : insn.opcode ≠ .wide
  /-- The node is of the kind that the code goes with. -/
  kind : insn.opcode.kind? = some insn.kind
  operands : insn.OperandsFit

end Insn

/-! ## Formats and kinds -/

theorem general_of_admits {op : Opcode} {f : Format} (h : f.admits op) (hkind : f.kind?.isSome) :
    op.normalize = (op, none) ∧ op ≠ .wide := by
  refine Opcode.forall_byte (P := fun op => (formatOf op).kind?.isSome →
    op.normalize = (op, none) ∧ op ≠ .wide) (by decide +kernel) (between_of_admits h) ?_
  rwa [formatOf_eq_of_admits h]

theorem admits_ite {op : Opcode} {p : Prop} [Decidable p] {f g : Format} (hf : p → f.admits op)
    (hg : g ≠ .unknown → g.admits op) : (if p then f else g) ≠ .unknown → (if p then f else g).admits op := by
  split
  · exact fun _ => hf ‹_›
  · exact hg

/-- A format that is known admits the code, whether that is a byte or not. -/
theorem admits_formatOf_of_ne {op : Opcode} : formatOf op ≠ .unknown → (formatOf op).admits op := by
  unfold formatOf
  repeat' refine admits_ite (fun hop => ?_) ?_
  all_goals first
    | exact hop
    | exact decide_eq_true hop
    | exact fun hne => absurd rfl hne

namespace Insn.WellFormed

variable {insn : Insn}

/-- It is enough that the format admits the code and belongs to the node. -/
theorem of_admits {f : Format} (h : f.admits insn.opcode) (hkind : f.kind? = some insn.kind)
    (hoperands : insn.OperandsFit) : insn.WellFormed := by
  obtain ⟨hgeneral, hnarrow⟩ := general_of_admits h (hkind ▸ rfl)
  refine ⟨hgeneral, hnarrow, ?_, hoperands⟩
  rw [Opcode.kind?, formatOf_eq_of_admits h, hkind]

/-- The format of the code of a well-formed instruction. -/
theorem exists_format (h : insn.WellFormed) :
    ∃ f : Format, f.kind? = some insn.kind ∧ f.admits insn.opcode := by
  refine ⟨_, h.kind, admits_formatOf_of_ne fun hunknown => ?_⟩
  have hkind := h.kind
  rw [Opcode.kind?, hunknown] at hkind
  exact nomatch hkind

/-- A label is not one. -/
theorem kind_ne (h : insn.WellFormed) : insn.kind ≠ .label := by
  intro hlabel
  obtain ⟨f, hf, -⟩ := h.exists_format
  rw [hlabel] at hf
  cases f <;> exact nomatch hf

/-- **The node fits its code.** -/
theorem normal (h : insn.WellFormed) : insn.Normal := by
  obtain ⟨f, hf, hadmits⟩ := h.exists_format
  cases insn with
  | plain op =>
    cases f <;> cases hf
    exact hadmits
  | int op operand =>
    cases f <;> cases hf
    · exact .inl (of_decide_eq_true hadmits)
    · exact .inr (.inl (of_decide_eq_true hadmits))
    · exact .inr (.inr (of_decide_eq_true hadmits))
  | var op index =>
    cases f <;> cases hf
    exact hadmits
  | type op desc =>
    cases f <;> cases hf
    have hop : op = .new || op = .anewarray || op = .checkcast || op = .instanceof := hadmits
    simpa only [Insn.Normal, Bool.or_eq_true, decide_eq_true_eq, or_assoc] using hop
  | field op owner name desc =>
    cases f <;> cases hf
    exact hadmits
  | method op owner name desc itf =>
    cases f <;> cases hf
    exact hadmits
  | jump op target =>
    cases f <;> cases hf
    exact hadmits
  | multiArray desc dimensions => exact Int.le_trans (by decide) h.operands.1
  | dynamic | label | ldc | iinc | tableSwitch | lookupSwitch => trivial

/-- **A well-formed instruction runs on every frame of values**: whatever it comes to, the only fault is the
load from an array that has no component. -/
theorem fault_eq (h : insn.WellFormed) {f : Frame} (hf : f.Each fun v => v.isSome) {fault : Fault}
    (hfault : f.execute insn = .error (.fault fault)) : fault = .type .endOfText := by
  have hsound : ∀ v : Slot, v.isSome → v.Sound True := by
    intro v hv
    obtain ⟨x, rfl⟩ := Option.isSome_iff_exists.mp hv
    exact ⟨x, rfl, .inr trivial⟩
  have heach : f.Each (Slot.Sound True) :=
    ⟨fun v hv => hsound v (hf.locals v hv), fun v hv => hsound v (hf.stack v hv)⟩
  exact (Frame.endFault_of_execute h.normal (fun _ _ _ => trivial) heach hfault).1

end Insn.WellFormed

/-! ## Encoded instructions -/

namespace ClassFile

theorem toInt_ofInt {n : Int} (h : FitsIn 32 n) : (Int32.ofInt n).toInt = n := by
  obtain ⟨hlow, hhigh⟩ := h
  exact Int32.toInt_ofInt_of_le (by simpa using hlow) (by simpa using hhigh)

/-- **What is encoded is well-formed.** -/
theorem Encodes.wellFormed {pool : Pool} {start : Nat} {data : List UInt8} {d : Draft Int}
    (h : Encodes pool start data d) (label : Int → Label) : (d.insn label).WellFormed := by
  cases h with
  | plain hop => exact .of_admits (f := .plain) hop rfl trivial
  | bipush => exact .of_admits (f := .bipush) rfl rfl trivial
  | sipush => exact .of_admits (f := .sipush) rfl rfl trivial
  | newarray => exact .of_admits (f := .newarray) rfl rfl trivial
  | ldc | ldcLong => exact .of_admits (f := .ldc) rfl rfl trivial
  | varShort hop hindex =>
    exact .of_admits (f := .var) (Bool.or_eq_true_iff.mpr (.inl hop)) rfl
      ⟨Int.natCast_nonneg _, by omega⟩
  | var hop hindex => exact .of_admits (f := .var) hop rfl ⟨Int.natCast_nonneg _, by omega⟩
  | varWide hop hindex => exact .of_admits (f := .var) hop rfl ⟨Int.natCast_nonneg _, by omega⟩
  | iinc hindex | iincWide hindex =>
    exact .of_admits (f := .iinc) rfl rfl ⟨Int.natCast_nonneg _, by omega⟩
  | jump hop => exact .of_admits (f := .jump) hop rfl trivial
  | jumpLong hop =>
    rcases hop with rfl | rfl
    · exact .of_admits (f := .jump) rfl rfl trivial
    · exact .of_admits (f := .jump) rfl rfl trivial
  | tableSwitch hpad hne hlow hhigh htargets =>
    refine .of_admits (f := .tableSwitch) rfl rfl ?_
    have hpos := List.length_pos_iff.mpr hne
    simp only [Draft.insn, Insn.OperandsFit, toInt_ofInt hlow, toInt_ofInt hhigh, List.length_map]
    unfold Draft.high
    omega
  | lookupSwitch hpad hcount hlength hdflt hcases =>
    refine .of_admits (f := .lookupSwitch) rfl rfl ?_
    simp only [Draft.insn, Insn.OperandsFit, List.length_map]
  | field hop => exact .of_admits (f := .field) hop rfl trivial
  | method hop => exact .of_admits (f := .method) hop rfl trivial
  | dynamic => exact .of_admits (f := .dynamic) rfl rfl trivial
  | type hop => exact .of_admits (f := .type) hop rfl trivial
  | multiArray hi hdesc hpos hdimensions =>
    exact .of_admits (f := .multiArray) rfl rfl ⟨by omega, by omega⟩

end ClassFile

end StackMap
