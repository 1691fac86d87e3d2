import StackMap.Proofs.ClassFile.Spelling
import StackMap.Proofs.ClassFile.Decode
import StackMap.Proofs.Frame.Fault

/-!
# `Proofs.ClassFile.Instruction`: the encodings of an instruction

An instruction has several encodings: local variables up to 3 have forms of one byte, greater ones take one
byte or, behind `wide`, two; constants, `goto` and `jsr` have a short and a long form; and the switches are
padded. `Encodes` lists the forms, with the fields that the operands have to fit. Decoding accepts these
encodings and no others.

## Contents

* `Draft`: instructions in general form, with targets of any type.
* `Encodes`: the encodings of an instruction.
* `Format`, `decodeInsn_eq`: decoding in two steps, the format of an operation code and its operands.
* `reads_decodeInsn`, `spells_decodeInsn`: what is decoded is an encoding of the result, and each encoding
  is decoded.
-/

namespace StackMap

open ClassFile ClassFile.Build

/-! ## Instructions in general form -/

/-- **Instructions in general form**, with targets of any type: distances in bytes, or positions in a list.
The upper bound of a `tableswitch` is the one that its targets leave. -/
inductive Draft (τ : Type) where
  | plain (op : Opcode)
  | int (op : Opcode) (operand : Int)
  | var (op : Opcode) (index : Nat)
  | iinc (index : Nat) (amount : Int)
  | ldc (constant : Constant)
  | jump (op : Opcode) (target : τ)
  | tableSwitch (low : Int) (dflt : τ) (targets : List τ)
  | lookupSwitch (dflt : τ) (cases : List (Int × τ))
  | field (op : Opcode) (owner name desc : String)
  | method (op : Opcode) (owner name desc : String) (itf : Bool)
  | dynamic (name desc : String) (bootstrap : Handle) (args : List Constant)
  | type (op : Opcode) (desc : String)
  | multiArray (desc : String) (dimensions : Nat)

namespace Draft

variable {σ τ : Type}

/-- Other targets. -/
def map (f : τ → σ) : Draft τ → Draft σ
  | plain op => .plain op
  | int op operand => .int op operand
  | var op index => .var op index
  | iinc index amount => .iinc index amount
  | ldc constant => .ldc constant
  | jump op target => .jump op (f target)
  | tableSwitch low dflt targets => .tableSwitch low (f dflt) (targets.map f)
  | lookupSwitch dflt cases => .lookupSwitch (f dflt) (cases.map fun c => (c.1, f c.2))
  | field op owner name desc => .field op owner name desc
  | method op owner name desc itf => .method op owner name desc itf
  | dynamic name desc bootstrap args => .dynamic name desc bootstrap args
  | type op desc => .type op desc
  | multiArray desc dimensions => .multiArray desc dimensions

/-- The targets, in order. -/
def targets : Draft τ → List τ
  | jump _ target => [target]
  | tableSwitch _ dflt targets => dflt :: targets
  | lookupSwitch dflt cases => dflt :: cases.map (·.2)
  | _ => []

/-- The upper bound of a `tableswitch`. -/
def high (low : Int) (targets : List τ) : Int := low + targets.length - 1

/-- **The instruction**, with labels for the targets. -/
def insn (label : τ → Label) : Draft τ → Insn
  | plain op => .plain op
  | int op operand => .int op operand
  | var op index => .var op index
  | iinc index amount => .iinc index amount
  | ldc constant => .ldc (some constant)
  | jump op target => .jump op (label target)
  | tableSwitch low dflt targets =>
    .tableSwitch (Int32.ofInt low) (Int32.ofInt (high low targets)) (label dflt) (targets.map label)
  | lookupSwitch dflt cases =>
    .lookupSwitch (label dflt) (cases.map fun c => Int32.ofInt c.1) (cases.map fun c => label c.2)
  | field op owner name desc => .field op owner name desc
  | method op owner name desc itf => .method op owner name desc itf
  | dynamic name desc bootstrap args => .dynamic name desc (some bootstrap) args
  | type op desc => .type op desc
  | multiArray desc dimensions => .multiArray desc dimensions

@[simp] theorem targets_map (f : τ → σ) (d : Draft τ) : (d.map f).targets = d.targets.map f := by
  cases d <;> simp [map, targets]

@[simp] theorem insn_map (f : τ → σ) (label : σ → Label) (d : Draft τ) :
    (d.map f).insn label = d.insn fun t => label (f t) := by
  cases d <;> simp [map, insn, high, Function.comp_def]

@[simp] theorem references_insn (label : τ → Label) (d : Draft τ) :
    (d.insn label).references = d.targets.map label := by
  cases d <;> simp [insn, targets, Insn.references]

/-- A draft is no label. -/
theorem kind_insn_ne (label : τ → Label) (d : Draft τ) : (d.insn label).kind ≠ .label := by
  cases d <;> simp only [insn, Insn.kind, ne_eq, reduceCtorEq, not_false_eq_true]

end Draft

namespace Opcode

/-- The byte of an operation code. -/
def byte (op : Opcode) : UInt8 := op.code.toNat.toUInt8

/-- The short form of a load or a store, for one of the locals 0 to 3. -/
def short (op : Opcode) (index : Nat) : Opcode :=
  if op.isLoad then ⟨0x1a + 4 * (op.code - 0x15) + index⟩ else ⟨0x3b + 4 * (op.code - 0x36) + index⟩

/-- The long form of `goto` and of `jsr`. -/
def long (op : Opcode) : Opcode := ⟨op.code + 0x21⟩

theorem normalize_short {op : Opcode} (hop : op.isLoad || op.isStore) {index : Nat} (hindex : index ≤ 3) :
    ((op.short index).between 0x1a 0x2d || (op.short index).between 0x3b 0x4e) ∧
      (op.short index).normalize = (op, some index) := by
  have hbyte : op.between 0 255 := by
    simp only [isLoad, isStore, between, Bool.or_eq_true, Bool.and_eq_true, decide_eq_true_eq] at hop ⊢
    omega
  exact forall_byte (P := fun op => op.isLoad || op.isStore → ∀ index ≤ 3,
      ((op.short index).between 0x1a 0x2d || (op.short index).between 0x3b 0x4e) ∧
        (op.short index).normalize = (op, some index))
    (by decide +kernel) hbyte hop index hindex

/-- The codes of short forms are the short forms of loads and stores. -/
theorem exists_short {op : Opcode} (hop : op.between 0x1a 0x2d || op.between 0x3b 0x4e) :
    ∃ general index, (general.isLoad || general.isStore) ∧ index ≤ 3 ∧ op = general.short index ∧
      op.normalize = (general, some index) := by
  have hbyte : op.between 0 255 := by
    simp only [between, Bool.or_eq_true, Bool.and_eq_true, decide_eq_true_eq] at hop ⊢
    omega
  have hshort := forall_byte (P := fun op => op.between 0x1a 0x2d || op.between 0x3b 0x4e →
      (op.normalize.1.isLoad || op.normalize.1.isStore) ∧ op.normalize.2.getD 0 ≤ 3 ∧
        op = op.normalize.1.short (op.normalize.2.getD 0) ∧
        op.normalize = (op.normalize.1, some (op.normalize.2.getD 0)))
    (by decide +kernel) hbyte hop
  exact ⟨_, _, hshort⟩

theorem exists_long {op : Opcode} (hop : op.between 0xc8 0xc9) :
    ∃ general, (general = .goto ∨ general = .jsr) ∧ op = general.long ∧ op.normalize.1 = general := by
  obtain ⟨code⟩ := op
  simp only [between, Bool.and_eq_true, decide_eq_true_eq] at hop
  obtain rfl | rfl : code = 0xc8 ∨ code = 0xc9 := by omega
  · exact ⟨.goto, .inl rfl, rfl, rfl⟩
  · exact ⟨.jsr, .inr rfl, rfl, rfl⟩

end Opcode

namespace ClassFile

open Reader

/-! ## Encodings -/

/-- **The encodings of an instruction** that stands at the offset `start`. Its targets are distances in
bytes from there. -/
inductive Encodes (pool : Pool) (start : Nat) : List UInt8 → Draft Int → Prop
  | plain {op : Opcode} (hop : standsAlone op) : Encodes pool start [op.byte] (.plain op)
  | bipush {n : Int} (hn : FitsIn 8 n) : Encodes pool start (Opcode.bipush.byte :: i1 n) (.int .bipush n)
  | sipush {n : Int} (hn : FitsIn 16 n) : Encodes pool start (Opcode.sipush.byte :: i2 n) (.int .sipush n)
  | newarray {n : Nat} (hn : n < 256) :
    Encodes pool start [Opcode.newarray.byte, n.toUInt8] (.int .newarray n)
  | ldc {i : Nat} {c : Constant} (hi : i < 256) (hc : pool.loadable i = .ok c) :
    Encodes pool start [Opcode.ldc.byte, i.toUInt8] (.ldc c)
  | ldcLong {op : Opcode} {i : Nat} {c : Constant} (hop : op.between 0x13 0x14) (hi : i < 65536)
    (hc : pool.loadable i = .ok c) : Encodes pool start (op.byte :: b2 i.toUInt16) (.ldc c)
  | varShort {op : Opcode} {index : Nat} (hop : op.isLoad || op.isStore) (hindex : index ≤ 3) :
    Encodes pool start [(op.short index).byte] (.var op index)
  | var {op : Opcode} {index : Nat} (hop : op.isLoad || op.isStore || op = .ret) (hindex : index < 256) :
    Encodes pool start [op.byte, index.toUInt8] (.var op index)
  | varWide {op : Opcode} {index : Nat} (hop : op.isLoad || op.isStore || op = .ret)
    (hindex : index < 65536) :
    Encodes pool start (Opcode.wide.byte :: op.byte :: b2 index.toUInt16) (.var op index)
  | iinc {index : Nat} {amount : Int} (hindex : index < 256) (hamount : FitsIn 8 amount) :
    Encodes pool start (Opcode.iinc.byte :: index.toUInt8 :: i1 amount) (.iinc index amount)
  | iincWide {index : Nat} {amount : Int} (hindex : index < 65536) (hamount : FitsIn 16 amount) :
    Encodes pool start (Opcode.wide.byte :: Opcode.iinc.byte :: (b2 index.toUInt16 ++ i2 amount))
      (.iinc index amount)
  | jump {op : Opcode} {distance : Int} (hop : op.isJump) (hdistance : FitsIn 16 distance) :
    Encodes pool start (op.byte :: i2 distance) (.jump op distance)
  | jumpLong {op : Opcode} {distance : Int} (hop : op = .goto ∨ op = .jsr)
    (hdistance : FitsIn 32 distance) : Encodes pool start (op.long.byte :: i4 distance) (.jump op distance)
  | tableSwitch {pad : List UInt8} {low dflt : Int} {targets : List Int}
    (hpad : pad.length = padding (start + 1)) (hne : targets ≠ []) (hlow : FitsIn 32 low)
    (hhigh : FitsIn 32 (Draft.high low targets)) (htargets : ∀ t ∈ dflt :: targets, FitsIn 32 t) :
    Encodes pool start
      (Opcode.tableswitch.byte ::
        (pad ++ (i4 dflt ++ (i4 low ++ (i4 (Draft.high low targets) ++ targets.flatMap i4)))))
      (.tableSwitch low dflt targets)
  | lookupSwitch {pad : List UInt8} {dflt count : Int} {cases : List (Int × Int)}
    (hpad : pad.length = padding (start + 1)) (hcount : FitsIn 32 count)
    -- A count below zero stands for no cases.
    (hlength : count.toNat = cases.length) (hdflt : FitsIn 32 dflt)
    (hcases : ∀ c ∈ cases, FitsIn 32 c.1 ∧ FitsIn 32 c.2) :
    Encodes pool start
      (Opcode.lookupswitch.byte ::
        (pad ++ (i4 dflt ++ (i4 count ++ cases.flatMap fun c => i4 c.1 ++ i4 c.2))))
      (.lookupSwitch dflt cases)
  | field {op : Opcode} {i : Nat} {m : Pool.Member} (hop : op.isFieldAccess) (hi : i < 65536)
    (hm : pool.member [9] i = .ok m) :
    Encodes pool start (op.byte :: b2 i.toUInt16) (.field op m.owner m.name m.desc)
  | method {op : Opcode} {i : Nat} {m : Pool.Member} {extra : List UInt8} (hop : op.isMethodCall)
    (hi : i < 65536) (hm : pool.member [10, 11] i = .ok m)
    (hextra : extra.length = if op = .invokeinterface then 2 else 0) :
    Encodes pool start (op.byte :: (b2 i.toUInt16 ++ extra)) (.method op m.owner m.name m.desc m.itf)
  | dynamic {i : Nat} {name desc : String} {h : Handle} {args : List Constant} {extra : List UInt8}
    (hi : i < 65536) (hextra : extra.length = 2) (hsite : pool.callSite i = .ok (name, desc, h, args)) :
    Encodes pool start (Opcode.invokedynamic.byte :: (b2 i.toUInt16 ++ extra)) (.dynamic name desc h args)
  | type {op : Opcode} {i : Nat} {desc : String}
    (hop : op = .new || op = .anewarray || op = .checkcast || op = .instanceof) (hi : i < 65536)
    (hdesc : pool.className i = .ok desc) :
    Encodes pool start (op.byte :: b2 i.toUInt16) (.type op desc)
  | multiArray {i dimensions : Nat} {desc : String} (hi : i < 65536)
    (hdesc : pool.className i = .ok desc) (hpos : 1 ≤ dimensions) (hdimensions : dimensions < 256) :
    Encodes pool start (Opcode.multianewarray.byte :: (b2 i.toUInt16 ++ [dimensions.toUInt8]))
      (.multiArray desc dimensions)

/-- An instruction takes a byte at least. -/
theorem Encodes.ne_nil {pool : Pool} {start : Nat} {data : List UInt8} {d : Draft Int}
    (h : Encodes pool start data d) : data ≠ [] := by
  cases h <;> exact List.cons_ne_nil _ _

/-! ## Formats -/

/-- **The formats of operands.** -/
inductive Format where
  | plain | bipush | sipush | newarray | ldc | ldcLong | var | varShort | iinc | jump | jumpLong
  | tableSwitch | lookupSwitch | field | method | dynamic | type | wide | multiArray | unknown
  deriving DecidableEq

/-- The operation codes with operands of a format. -/
def Format.admits : Format → Opcode → Bool
  | .plain, op => standsAlone op
  | .bipush, op => op = .bipush
  | .sipush, op => op = .sipush
  | .newarray, op => op = .newarray
  | .ldc, op => op = .ldc
  | .ldcLong, op => op.between 0x13 0x14
  | .var, op => op.isLoad || op.isStore || op = .ret
  | .varShort, op => op.between 0x1a 0x2d || op.between 0x3b 0x4e
  | .iinc, op => op = .iinc
  | .jump, op => op.isJump
  | .jumpLong, op => op.between 0xc8 0xc9
  | .tableSwitch, op => op = .tableswitch
  | .lookupSwitch, op => op = .lookupswitch
  | .field, op => op.isFieldAccess
  | .method, op => op.isMethodCall
  | .dynamic, op => op = .invokedynamic
  | .type, op => op = .new || op = .anewarray || op = .checkcast || op = .instanceof
  | .wide, op => op = .wide
  | .multiArray, op => op = .multianewarray
  | .unknown, op => op.between 0xca 0xff

/-- The format of the operands of an operation code. -/
def formatOf (op : Opcode) : Format :=
  if standsAlone op then .plain
  else if op = .bipush then .bipush
  else if op = .sipush then .sipush
  else if op = .newarray then .newarray
  else if op = .ldc then .ldc
  else if op.between 0x13 0x14 then .ldcLong
  else if op.isLoad || op.isStore || op = .ret then .var
  else if op.between 0x1a 0x2d || op.between 0x3b 0x4e then .varShort
  else if op = .iinc then .iinc
  else if op.isJump then .jump
  else if op.between 0xc8 0xc9 then .jumpLong
  else if op = .tableswitch then .tableSwitch
  else if op = .lookupswitch then .lookupSwitch
  else if op.isFieldAccess then .field
  else if op.isMethodCall then .method
  else if op = .invokedynamic then .dynamic
  else if op = .new || op = .anewarray || op = .checkcast || op = .instanceof then .type
  else if op = .wide then .wide
  else if op = .multianewarray then .multiArray
  else .unknown

/-- The operands of a format. -/
def decodeOperands (pool : Pool) (block start : Nat) (op : Opcode) : Format → Reader (Insn × List Int)
  | .plain => return still (.plain op)
  | .bipush => return still (.int op (← Reader.s1))
  | .sipush => return still (.int op (← Reader.s2))
  | .newarray => return still (.int op (← Reader.u1))
  | .ldc => do
    let i ← Reader.u1
    return still (.ldc (some (← Reader.ofExcept (pool.loadable i))))
  | .ldcLong => do
    let i ← Reader.u2
    return still (.ldc (some (← Reader.ofExcept (pool.loadable i))))
  | .var => return still (.var op (← Reader.u1))
  | .varShort =>
    let (general, index) := op.normalize
    return still (.var general (index.getD 0))
  | .iinc => do
    let index ← Reader.u1
    return still (.iinc index (← Reader.s1))
  | .jump => return jumpBy block start op (← Reader.s2)
  | .jumpLong => return jumpBy block start op.normalize.1 (← Reader.s4)
  | .tableSwitch => decodeTableSwitch block start
  | .lookupSwitch => decodeLookupSwitch block start
  | .field => do
    let m ← Reader.ofExcept (pool.member [9] (← Reader.u2))
    return still (.field op m.owner m.name m.desc)
  | .method => do
    let m ← Reader.ofExcept (pool.member [10, 11] (← Reader.u2))
    if op = .invokeinterface then Reader.skip 2
    return still (.method op m.owner m.name m.desc m.itf)
  | .dynamic => do
    let (name, desc, h, args) ← readCallSite pool
    return still (.dynamic name desc (some h) args)
  | .type => return still (.type op (← Reader.ofExcept (pool.className (← Reader.u2))))
  | .wide => return still (← decodeWide)
  | .multiArray => do
    let desc ← Reader.ofExcept (pool.className (← Reader.u2))
    let dimensions ← Reader.u1
    if dimensions = 0 then Reader.fail .noDimensions
    return still (.multiArray desc dimensions)
  | .unknown => Reader.fail (.badOpcode op.code.toNat)

/-- **Decoding in two steps**: the format of the operation code, and its operands. -/
theorem decodeInsn_eq (pool : Pool) (block start : Nat) :
    decodeInsn pool block start =
      Reader.u1 >>= fun code => decodeOperands pool block start ⟨code⟩ (formatOf ⟨code⟩) := by
  unfold decodeInsn formatOf
  simp only [apply_ite (decodeOperands _ _ _ _)]
  rfl

theorem admits_formatOf {op : Opcode} (hop : op.between 0 255) : (formatOf op).admits op :=
  Opcode.forall_byte (P := fun op => (formatOf op).admits op) (by decide +kernel) hop

theorem between_of_admits {op : Opcode} {f : Format} (h : f.admits op) : op.between 0 255 := by
  obtain ⟨code⟩ := op
  cases f
  all_goals
    simp only [Format.admits, standsAlone, Opcode.isLoad, Opcode.isStore, Opcode.isJump,
      Opcode.isFieldAccess, Opcode.isMethodCall, Opcode.between, Opcode.bipush, Opcode.sipush,
      Opcode.newarray, Opcode.ldc, Opcode.ret, Opcode.iinc, Opcode.tableswitch, Opcode.lookupswitch,
      Opcode.invokedynamic, Opcode.new, Opcode.anewarray, Opcode.checkcast, Opcode.instanceof,
      Opcode.wide, Opcode.multianewarray, Opcode.mk.injEq, Bool.or_eq_true, Bool.and_eq_true,
      decide_eq_true_eq] at h ⊢
    omega

/-- No operation code has operands of two formats. -/
theorem formatOf_eq_of_admits {op : Opcode} {f : Format} (h : f.admits op) : formatOf op = f := by
  have hop := between_of_admits h
  cases f
  all_goals
    exact Opcode.forall_byte (P := fun op => Format.admits _ op → formatOf op = _) (by decide +kernel) hop h

theorem byte_lt {op : Opcode} (hop : op.between 0 255) :
    op.code.toNat < 256 ∧ (⟨(op.code.toNat : Int)⟩ : Opcode) = op := by
  obtain ⟨code⟩ := op
  simp only [Opcode.between, Bool.and_eq_true, decide_eq_true_eq] at hop
  simp only [Opcode.mk.injEq]
  omega

/-! ## Decoding -/

/-- **The instruction at an offset**, with the labels of a code block, and the offsets that it refers to. -/
def resolved (block start : Nat) (d : Draft Int) : Insn × List Int :=
  ((d.map ((start : Int) + ·)).insn (labelAt block), (d.map ((start : Int) + ·)).targets)

section

variable {pool : Pool} {block start : Nat} {data : List UInt8} {d : Draft Int}

/-- It is enough to decode the operands, in their format. -/
theorem reads_of_operands {op : Opcode} {f : Format} {a : Insn × List Int} (hop : f.admits op)
    (h : (decodeOperands pool block start op f).Reads data a) :
    (decodeInsn pool block start).Reads (op.byte :: data) a := by
  obtain ⟨hlt, hcode⟩ := byte_lt (between_of_admits hop)
  rw [decodeInsn_eq]
  refine (reads_u1_of_lt hlt).bind ?_
  rwa [hcode, formatOf_eq_of_admits hop]

theorem reads_decodeWide_var {op : Opcode} {index : Nat} (hop : op.isLoad || op.isStore || op = .ret)
    (hindex : index < 65536) : decodeWide.Reads (op.byte :: b2 index.toUInt16) (.var op index) := by
  obtain ⟨hlt, hcode⟩ := byte_lt (between_of_admits (f := .var) hop)
  have hne : op ≠ .iinc := by
    rintro rfl
    exact absurd hop (by decide)
  refine (reads_u1_of_lt hlt).bind ((reads_u2_of_lt hindex).before ?_)
  rw [hcode, if_neg hne, if_pos hop]
  exact .pure _

theorem reads_decodeWide_iinc {index : Nat} {amount : Int} (hindex : index < 65536)
    (hamount : FitsIn 16 amount) :
    decodeWide.Reads (Opcode.iinc.byte :: (b2 index.toUInt16 ++ i2 amount)) (.iinc index amount) :=
  (reads_u1_of_lt (n := 0x84) (by decide)).bind ((reads_u2_of_lt hindex).bind ((reads_s2 hamount).map _))

theorem reads_decodeTableSwitch {pad : List UInt8} {low dflt : Int} {targets : List Int}
    (hpad : pad.length = padding (start + 1)) (hne : targets ≠ []) (hlow : FitsIn 32 low)
    (hhigh : FitsIn 32 (Draft.high low targets)) (htargets : ∀ t ∈ dflt :: targets, FitsIn 32 t) :
    (decodeTableSwitch block start).Reads
      (pad ++ (i4 dflt ++ (i4 low ++ (i4 (Draft.high low targets) ++ targets.flatMap i4))))
      (resolved block start (.tableSwitch low dflt targets)) := by
  have hpos := List.length_pos_iff.mpr hne
  have hlength : (Draft.high low targets - low + 1).toNat = targets.length := by
    unfold Draft.high
    omega
  have hrange : ¬ Draft.high low targets < low := by
    unfold Draft.high
    omega
  rw [List.forall_mem_cons] at htargets
  have hread : (Reader.times (do return (start : Int) + (← Reader.s4)) targets.length).Reads
      (targets.flatMap i4) (targets.map ((start : Int) + ·)) :=
    .times fun t ht => (reads_s4 (htargets.2 t ht)).map _
  refine (reads_skip hpad).bind ((reads_s4 htargets.1).bind ((reads_s4 hlow).bind ?_))
  refine (reads_s4 hhigh).bind ?_
  rw [if_neg hrange, hlength]
  have hplaced := hread.map fun l => (Insn.tableSwitch (Int32.ofInt low)
    (Int32.ofInt (Draft.high low targets)) (labelAt block (start + dflt)) (l.map (labelAt block)),
    (start + dflt : Int) :: l)
  simpa [resolved, Draft.map, Draft.insn, Draft.targets, Draft.high] using hplaced

theorem reads_decodeLookupSwitch {pad : List UInt8} {dflt count : Int} {cases : List (Int × Int)}
    (hpad : pad.length = padding (start + 1)) (hcount : FitsIn 32 count)
    (hlength : count.toNat = cases.length) (hdflt : FitsIn 32 dflt)
    (hcases : ∀ c ∈ cases, FitsIn 32 c.1 ∧ FitsIn 32 c.2) :
    (decodeLookupSwitch block start).Reads
      (pad ++ (i4 dflt ++ (i4 count ++ cases.flatMap fun c => i4 c.1 ++ i4 c.2)))
      (resolved block start (.lookupSwitch dflt cases)) := by
  have hread : (Reader.times (do
      let key ← Reader.s4
      return (key, (start : Int) + (← Reader.s4))) cases.length).Reads
      (cases.flatMap fun c => i4 c.1 ++ i4 c.2) (cases.map fun c => (c.1, (start : Int) + c.2)) :=
    .times fun c hc => (reads_s4 (hcases c hc).1).bind ((reads_s4 (hcases c hc).2).map _)
  refine (reads_skip hpad).bind ((reads_s4 hdflt).bind ((reads_s4 hcount).bind ?_))
  rw [hlength]
  exact hread.map _

theorem reads_readCallSite {i : Nat} {extra : List UInt8} {site : String × String × Handle × List Constant}
    (hi : i < 65536) (hextra : extra.length = 2) (hsite : pool.callSite i = .ok site) :
    (readCallSite pool).Reads (b2 i.toUInt16 ++ extra) site := by
  refine (reads_u2_of_lt hi).bind ?_
  simp only [hsite]
  exact (reads_skip hextra).before (.ofExcept rfl)

/-- **Every encoding of an instruction is decoded.** -/
theorem reads_decodeInsn (h : Encodes pool start data d) :
    (decodeInsn pool block start).Reads data (resolved block start d) := by
  cases h with
  | plain hop => exact reads_of_operands (f := .plain) hop (.pure _)
  | bipush hn => exact reads_of_operands (f := .bipush) rfl ((reads_s1 hn).map _)
  | sipush hn => exact reads_of_operands (f := .sipush) rfl ((reads_s2 hn).map _)
  | newarray hn => exact reads_of_operands (f := .newarray) rfl ((reads_u1_of_lt hn).map _)
  | ldc hi hc =>
    exact reads_of_operands (f := .ldc) rfl ((reads_u1_of_lt hi).before (.map (.ofExcept hc) _))
  | ldcLong hop hi hc =>
    exact reads_of_operands (f := .ldcLong) hop ((reads_u2_of_lt hi).before (.map (.ofExcept hc) _))
  | varShort hop hindex =>
    obtain ⟨hshort, hnormalize⟩ := Opcode.normalize_short hop hindex
    refine reads_of_operands (f := .varShort) hshort ?_
    simp only [decodeOperands, hnormalize]
    exact .pure _
  | var hop hindex => exact reads_of_operands (f := .var) hop ((reads_u1_of_lt hindex).map _)
  | varWide hop hindex =>
    exact reads_of_operands (f := .wide) rfl ((reads_decodeWide_var hop hindex).map _)
  | iinc hindex hamount =>
    exact reads_of_operands (f := .iinc) rfl ((reads_u1_of_lt hindex).bind ((reads_s1 hamount).map _))
  | iincWide hindex hamount =>
    exact reads_of_operands (f := .wide) rfl ((reads_decodeWide_iinc hindex hamount).map _)
  | jump hop hdistance => exact reads_of_operands (f := .jump) hop ((reads_s2 hdistance).map _)
  | jumpLong hop hdistance =>
    rcases hop with rfl | rfl
    · have hlong : Format.admits .jumpLong (Opcode.long .goto) := rfl
      exact reads_of_operands hlong ((reads_s4 hdistance).map _)
    · have hlong : Format.admits .jumpLong (Opcode.long .jsr) := rfl
      exact reads_of_operands hlong ((reads_s4 hdistance).map _)
  | tableSwitch hpad hne hlow hhigh htargets =>
    exact reads_of_operands (f := .tableSwitch) rfl
      (reads_decodeTableSwitch hpad hne hlow hhigh htargets)
  | lookupSwitch hpad hcount hlength hdflt hcases =>
    exact reads_of_operands (f := .lookupSwitch) rfl
      (reads_decodeLookupSwitch hpad hcount hlength hdflt hcases)
  | field hop hi hm =>
    exact reads_of_operands (f := .field) hop ((reads_u2_of_lt hi).before (.map (.ofExcept hm) _))
  | method hop hi hm hextra =>
    refine reads_of_operands (f := .method) hop ((reads_u2_of_lt hi).bind ?_)
    refine .after (.ofExcept hm) ?_
    split at hextra
    · rw [if_pos ‹_›]
      exact (reads_skip hextra).map _
    · rw [if_neg ‹_›, List.length_eq_zero_iff.mp hextra]
      exact .after (.pure _) (.pure _)
  | dynamic hi hextra hsite =>
    exact reads_of_operands (f := .dynamic) rfl ((reads_readCallSite hi hextra hsite).map _)
  | type hop hi hdesc =>
    exact reads_of_operands (f := .type) hop ((reads_u2_of_lt hi).before (.map (.ofExcept hdesc) _))
  | multiArray hi hdesc hpos hdimensions =>
    refine reads_of_operands (f := .multiArray) rfl ((reads_u2_of_lt hi).bind ?_)
    refine .after (.ofExcept hdesc) ((reads_u1_of_lt hdimensions).before ?_)
    rw [if_neg (Nat.ne_of_gt hpos)]
    exact .after (.pure _) (.pure _)

/-! ## What has been decoded -/

/-- Bytes behind an operation code that are the encoding of an instruction. -/
def Operands (pool : Pool) (block start : Nat) (op : Opcode) (data : List UInt8) (a : Insn × List Int) :
    Prop :=
  ∃ d, Encodes pool start (op.byte :: data) d ∧ a = resolved block start d

theorem spells_decodeWide :
    decodeWide.Spells fun used insn => Operands pool block start .wide used (still insn) := by
  unfold decodeWide
  refine spells_u1.bind ?_
  rintro code _ ⟨hcode, rfl⟩
  refine spells_u2.bind ?_
  rintro index _ ⟨hindex, rfl⟩
  dsimp only
  refine .ite (fun hop => ?_) fun _ => .ite (fun hop => .pure ?_) fun _ => .throw
  · obtain rfl : code = 0x84 := by
      have hint : (code : Int) = 0x84 := congrArg Opcode.code hop
      omega
    refine .map (spells_s2.mono ?_)
    rintro _ amount ⟨hamount, rfl⟩
    exact ⟨_, .iincWide hindex hamount, rfl⟩
  · exact ⟨_, .varWide hop hindex, rfl⟩

theorem spells_decodeTableSwitch :
    (decodeTableSwitch block start).Spells (Operands pool block start .tableswitch) := by
  unfold decodeTableSwitch
  refine (spells_skip _).bind fun _ pad hpad => ?_
  refine spells_s4.bind ?_
  rintro dflt _ ⟨hdflt, rfl⟩
  refine spells_s4.bind ?_
  rintro low _ ⟨hlow, rfl⟩
  refine spells_s4.bind ?_
  rintro high _ ⟨hhigh, rfl⟩
  refine .ite (fun _ => .throw_bind) fun hrange => ?_
  have hread : Spells (do return (start : Int) + (← Reader.s4)) fun used (t : Int) =>
      ∃ distance, used = i4 distance ∧ FitsIn 32 distance ∧ t = start + distance :=
    .map (spells_s4.mono fun used distance ⟨hfits, hused⟩ => ⟨distance, hused, hfits, rfl⟩)
  refine .map ((hread.times_map _).mono ?_)
  rintro _ _ ⟨hlength, distances, rfl, hdistances, rfl⟩
  rw [List.length_map] at hlength
  -- The upper bound is the one that the number of targets leaves.
  obtain rfl : high = Draft.high low distances := by
    unfold Draft.high
    omega
  have hne : distances ≠ [] := by
    rintro rfl
    rw [List.length_nil] at hlength
    omega
  refine ⟨_, .tableSwitch hpad hne hlow hhigh (List.forall_mem_cons.mpr ⟨hdflt, hdistances⟩), ?_⟩
  simp [resolved, Draft.map, Draft.insn, Draft.targets, Draft.high]

theorem spells_decodeLookupSwitch :
    (decodeLookupSwitch block start).Spells (Operands pool block start .lookupswitch) := by
  unfold decodeLookupSwitch
  refine (spells_skip _).bind fun _ pad hpad => ?_
  refine spells_s4.bind ?_
  rintro dflt _ ⟨hdflt, rfl⟩
  refine spells_s4.bind ?_
  rintro count _ ⟨hcount, rfl⟩
  have hread : Spells (do
      let key ← Reader.s4
      return (key, (start : Int) + (← Reader.s4))) fun used (c : Int × Int) =>
      ∃ x : Int × Int, used = i4 x.1 ++ i4 x.2 ∧ (FitsIn 32 x.1 ∧ FitsIn 32 x.2) ∧
        c = (x.1, start + x.2) := by
    refine spells_s4.bind ?_
    rintro key _ ⟨hkey, rfl⟩
    refine .map (spells_s4.mono ?_)
    rintro _ distance ⟨hdistance, rfl⟩
    exact ⟨(key, distance), rfl, ⟨hkey, hdistance⟩, rfl⟩
  refine .map ((hread.times_map _).mono ?_)
  rintro _ _ ⟨hlength, cases, rfl, hcases, rfl⟩
  rw [List.length_map] at hlength
  exact ⟨_, .lookupSwitch hpad hcount hlength.symm hdflt hcases, rfl⟩

theorem spells_readCallSite : (readCallSite pool).Spells fun used site =>
    ∃ i extra, used = b2 i.toUInt16 ++ extra ∧ i < 65536 ∧ extra.length = 2 ∧
      pool.callSite i = .ok site := by
  refine spells_u2.bind ?_
  rintro i _ ⟨hi, rfl⟩
  split
  · exact .throw
  · refine (spells_skip 2).bind fun _ extra hextra => .ofExcept fun site hsite => ?_
    rw [List.append_nil]
    exact ⟨i, extra, rfl, hi, hextra, hsite⟩

theorem spells_decodeOperands {op : Opcode} {f : Format} (hop : f.admits op) :
    (decodeOperands pool block start op f).Spells (Operands pool block start op) := by
  cases f with
  | plain => exact .pure ⟨_, .plain hop, rfl⟩
  | bipush =>
    obtain rfl := of_decide_eq_true hop
    refine .map (spells_s1.mono ?_)
    rintro _ n ⟨hn, rfl⟩
    exact ⟨_, .bipush hn, rfl⟩
  | sipush =>
    obtain rfl := of_decide_eq_true hop
    refine .map (spells_s2.mono ?_)
    rintro _ n ⟨hn, rfl⟩
    exact ⟨_, .sipush hn, rfl⟩
  | newarray =>
    obtain rfl := of_decide_eq_true hop
    refine .map (spells_u1.mono ?_)
    rintro _ n ⟨hn, rfl⟩
    exact ⟨_, .newarray hn, rfl⟩
  | ldc =>
    obtain rfl := of_decide_eq_true hop
    refine spells_u1.bind ?_
    rintro i _ ⟨hi, rfl⟩
    exact .map (.ofExcept fun c hc => ⟨_, .ldc hi hc, rfl⟩)
  | ldcLong =>
    refine spells_u2.bind ?_
    rintro i _ ⟨hi, rfl⟩
    exact .map (.ofExcept fun c hc => ⟨_, .ldcLong hop hi hc, rfl⟩)
  | var =>
    refine .map (spells_u1.mono ?_)
    rintro _ n ⟨hn, rfl⟩
    exact ⟨_, .var hop hn, rfl⟩
  | varShort =>
    obtain ⟨general, index, hgeneral, hindex, rfl, hnormalize⟩ := Opcode.exists_short hop
    simp only [decodeOperands, hnormalize]
    exact .pure ⟨_, .varShort hgeneral hindex, rfl⟩
  | iinc =>
    obtain rfl := of_decide_eq_true hop
    refine spells_u1.bind ?_
    rintro i _ ⟨hi, rfl⟩
    refine .map (spells_s1.mono ?_)
    rintro _ n ⟨hn, rfl⟩
    exact ⟨_, .iinc hi hn, rfl⟩
  | jump =>
    refine .map (spells_s2.mono ?_)
    rintro _ n ⟨hn, rfl⟩
    exact ⟨_, .jump hop hn, rfl⟩
  | jumpLong =>
    obtain ⟨general, hgeneral, rfl, hnormalize⟩ := Opcode.exists_long hop
    simp only [decodeOperands, hnormalize]
    refine .map (spells_s4.mono ?_)
    rintro _ n ⟨hn, rfl⟩
    exact ⟨_, .jumpLong hgeneral hn, rfl⟩
  | tableSwitch =>
    obtain rfl := of_decide_eq_true hop
    exact spells_decodeTableSwitch
  | lookupSwitch =>
    obtain rfl := of_decide_eq_true hop
    exact spells_decodeLookupSwitch
  | field =>
    refine spells_u2.bind ?_
    rintro i _ ⟨hi, rfl⟩
    exact .map (.ofExcept fun m hm => ⟨_, .field hop hi hm, rfl⟩)
  | method =>
    refine spells_u2.bind ?_
    rintro i _ ⟨hi, rfl⟩
    refine .after fun m hm => .ite (fun hop' => ?_) fun hop' => ?_
    · refine .map ((spells_skip 2).mono fun extra _ hextra => ?_)
      replace hextra : extra.length = if op = .invokeinterface then 2 else 0 := by
        rw [if_pos hop', hextra]
      exact ⟨_, .method hop hi hm hextra, rfl⟩
    · have hextra : ([] : List UInt8).length = if op = .invokeinterface then 2 else 0 := by
        rw [if_neg hop', List.length_nil]
      exact .pure ⟨_, .method hop hi hm hextra, rfl⟩
  | dynamic =>
    obtain rfl := of_decide_eq_true hop
    refine .map (spells_readCallSite.mono ?_)
    rintro _ ⟨name, desc, h, args⟩ ⟨i, extra, rfl, hi, hextra, hsite⟩
    exact ⟨_, .dynamic hi hextra hsite, rfl⟩
  | type =>
    refine spells_u2.bind ?_
    rintro i _ ⟨hi, rfl⟩
    exact .map (.ofExcept fun desc hdesc => ⟨_, .type hop hi hdesc, rfl⟩)
  | wide =>
    obtain rfl := of_decide_eq_true hop
    exact .map spells_decodeWide
  | multiArray =>
    obtain rfl := of_decide_eq_true hop
    refine spells_u2.bind ?_
    rintro i _ ⟨hi, rfl⟩
    refine .after fun desc hdesc => spells_u1.bind ?_
    rintro dimensions _ ⟨hdimensions, rfl⟩
    refine .ite (fun _ => .throw_bind) fun hne => .pure ?_
    exact ⟨_, .multiArray hi hdesc (Nat.pos_of_ne_zero hne) hdimensions, rfl⟩
  | unknown => exact .throw

/-- **Whatever is decoded is an encoding of the result.** -/
theorem spells_decodeInsn : (decodeInsn pool block start).Spells fun used a =>
    ∃ d, Encodes pool start used d ∧ a = resolved block start d := by
  rw [decodeInsn_eq]
  refine spells_u1.bind ?_
  rintro code _ ⟨hcode, rfl⟩
  have hbyte : (Opcode.mk code).between 0 255 := by
    simp only [Opcode.between, Bool.and_eq_true, decide_eq_true_eq]
    omega
  exact spells_decodeOperands (admits_formatOf hbyte)

end

end ClassFile

end StackMap
