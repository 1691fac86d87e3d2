import StackMap.Proofs.ClassFile.Header

/-!
# `Proofs.ClassFile.Decode`: what decoding gives

Nodes can be made by hand with any operation code, but decoding makes only such as fit their codes. It
fails with a verdict on the file, or because a constant has no end.

## Contents

* `Insn.Normal`, `Method.Normal`: instructions and methods as decoding makes them.
* `Undecided`: why code is refused.
* `ensures_readCallSite`, `ensures_decodeInsn`, `normal_of_decodeMethod`, `undecided_of_decodeMethod`: the
  outcomes of decoding.
-/

namespace StackMap

/-- **Nodes that fit their operation codes.** -/
def Insn.Normal : Insn → Prop
  | .plain op => ClassFile.standsAlone op
  | .int op _ => op = .bipush ∨ op = .sipush ∨ op = .newarray
  | .var op _ => op.isLoad || op.isStore || op = .ret
  | .type op _ => op = .new ∨ op = .anewarray ∨ op = .checkcast ∨ op = .instanceof
  | .field op .. => op.isFieldAccess
  | .method op .. => op.isMethodCall
  | .jump op _ => op.isJump
  | .multiArray _ dimensions => 0 ≤ dimensions
  | .dynamic .. | .label _ | .ldc _ | .iinc .. | .tableSwitch .. | .lookupSwitch .. => True

/-- **Methods of such nodes**, with sizes that are not below zero. -/
structure Method.Normal (m : Method) : Prop where
  maxStack : 0 ≤ m.maxStack
  maxLocals : 0 ≤ m.maxLocals
  insns : ∀ insn ∈ m.insns, insn.Normal

namespace ClassFile

open Reader

/-- **Why code is refused**: with a verdict, or because a constant of the pool has no end. -/
def Undecided (p : Pool) (cause : FormatError) : Prop :=
  Verdict cause ∨ cause = .endlessConstant ∧ ∃ i, p.Endless i

theorem undecided_truncated (p : Pool) (need offset left : Nat) :
    Undecided p (.truncated need offset left) := Or.inl ⟨_, rfl⟩

theorem Refuses.undecided {α : Type} {x : Except FormatError α} (h : Refuses x) (p : Pool)
    (cause : FormatError) (hx : x = .error cause) : Undecided p cause :=
  Or.inl ⟨_, h cause hx⟩

section

variable (p : Pool) (block start : Nat)

theorem undecided_loadable {i : Nat} (cause : FormatError) (h : p.loadable i = .error cause) :
    Undecided p cause := by
  rcases Pool.loadableWithin_eq_error h with hkind | rfl
  · exact Or.inl ⟨_, hkind⟩
  · exact Or.inr ⟨rfl, i, Pool.endless_iff.mpr h⟩

theorem undecided_callSite {i : Nat} (cause : FormatError) (h : p.callSite i = .error cause) :
    Undecided p cause := by
  unfold Pool.callSite at h
  rcases bind_eq_error_iff.mp h with h | ⟨e, -, h⟩
  · exact (p.refuses_get i).undecided p cause h
  split at h
  · rename_i bootstrap nt
    rcases bind_eq_error_iff.mp h with h | ⟨_, -, h⟩
    · exact (p.refuses_nameAndType nt).undecided p cause h
    rcases bind_eq_error_iff.mp h with h | ⟨_, -, h⟩
    · rcases Pool.bootstrapWith_eq_error h with hkind | ⟨method, -, j, -, hj⟩
      · exact Or.inl ⟨_, hkind⟩
      · exact undecided_loadable p cause hj
    · exact nomatch h
  · cases h
    exact Or.inl ⟨_, rfl⟩

/-! ## Instructions -/

theorem isVar_normalize {op : Opcode} (h : op.between 0x1a 0x2d || op.between 0x3b 0x4e) :
    op.normalize.1.isLoad || op.normalize.1.isStore || op.normalize.1 = .ret := by
  unfold Opcode.normalize
  by_cases hload : op.between 0x1a 0x2d
  · rw [if_pos hload]
    simp only [Opcode.between, Opcode.isLoad, Bool.and_eq_true, Bool.or_eq_true,
      decide_eq_true_eq] at hload ⊢
    omega
  · have hstore : op.between 0x3b 0x4e := (Bool.or_eq_true _ _ ▸ h).resolve_left hload
    rw [if_neg hload, if_pos hstore]
    simp only [Opcode.between, Opcode.isStore, Bool.and_eq_true, Bool.or_eq_true,
      decide_eq_true_eq] at hstore ⊢
    omega

theorem isJump_normalize {op : Opcode} (h : op.between 0xc8 0xc9) : op.normalize.1.isJump := by
  obtain ⟨code⟩ := op
  simp only [Opcode.between, Bool.and_eq_true, decide_eq_true_eq] at h
  obtain rfl | rfl : code = 0xc8 ∨ code = 0xc9 := by omega
  · decide
  · decide

theorem ensures_decodeTableSwitch :
    (decodeTableSwitch block start).Ensures (fun placed => placed.1.Normal) (Undecided p) := by
  have hE := undecided_truncated p
  unfold decodeTableSwitch
  refine (ensures_skip hE _).bind fun _ _ => (ensures_s4 hE).bind fun dflt _ => ?_
  refine (ensures_s4 hE).bind fun low _ => (ensures_s4 hE).bind fun high _ => ?_
  refine .ite (fun _ => .throw_bind (Or.inl ⟨_, rfl⟩)) fun _ => ?_
  refine .bind (.times (Q := fun _ => True) ?_ _) fun _ _ => .pure trivial
  exact (ensures_s4 hE).bind fun _ _ => .pure trivial

theorem ensures_decodeLookupSwitch :
    (decodeLookupSwitch block start).Ensures (fun placed => placed.1.Normal) (Undecided p) := by
  have hE := undecided_truncated p
  unfold decodeLookupSwitch
  refine (ensures_skip hE _).bind fun _ _ => (ensures_s4 hE).bind fun dflt _ => ?_
  refine (ensures_s4 hE).bind fun count _ => ?_
  refine .bind (.times (Q := fun _ => True) ?_ _) fun _ _ => .pure trivial
  exact (ensures_s4 hE).bind fun _ _ => (ensures_s4 hE).bind fun _ _ => .pure trivial

theorem ensures_decodeWide : decodeWide.Ensures Insn.Normal (Undecided p) := by
  have hE := undecided_truncated p
  unfold decodeWide
  refine (ensures_u1 hE).bind fun code _ => (ensures_u2 hE).bind fun index _ => ?_
  refine .ite (fun _ => (ensures_s2 hE).bind fun _ _ => .pure trivial) fun _ => ?_
  exact .ite (fun hop => .pure hop) fun _ => .throw (Or.inl ⟨_, rfl⟩)

/-- **A call site** is refused because it ends too early, because of what it refers to, or because it takes
a constant without end. -/
theorem ensures_readCallSite : (readCallSite p).Ensures (fun _ => True) (Undecided p) := by
  have hE := undecided_truncated p
  unfold readCallSite
  refine (ensures_u2 hE).bind fun i _ => ?_
  split
  · rename_i hsite
    exact .throw (undecided_callSite p _ hsite)
  · exact (ensures_skip hE 2).bind fun _ _ => .ofExcept (fun _ _ => trivial) (undecided_callSite p)

/-- The call site takes a constant that is its own argument. That two bytes are missing is never noticed. -/
example : readCallSite ⟨#[.unused, .utf8 "f", .classRef 1, .nameAndType 1 1, .methodRef 2 3,
    .methodHandle 6 4, .dynamic 0 3, .invokeDynamic 0 3], [⟨5, [6]⟩]⟩ ⟨[0, 7], 0⟩ =
      .error ⟨[], .endlessConstant⟩ := by
  cbv

/-- **The instruction at the cursor fits its code**, or there is a reason why it is refused. -/
theorem ensures_decodeInsn :
    (decodeInsn p block start).Ensures (fun placed => placed.1.Normal) (Undecided p) := by
  have hE := undecided_truncated p
  have hloadable : ∀ i, (Reader.ofExcept (p.loadable i)).Ensures (fun _ => True) (Undecided p) :=
    fun i => .ofExcept (fun _ _ => trivial) (undecided_loadable p)
  have hmember : ∀ tags i,
      (Reader.ofExcept (p.member tags i)).Ensures (fun _ => True) (Undecided p) :=
    fun tags i => .ofExcept (fun _ _ => trivial) ((p.refuses_member tags i).undecided p)
  have hname : ∀ i, (Reader.ofExcept (p.className i)).Ensures (fun _ => True) (Undecided p) :=
    fun i => .ofExcept (fun _ _ => trivial) ((p.refuses_className i).undecided p)
  unfold decodeInsn
  refine (ensures_u1 hE).bind fun code _ => ?_
  refine .ite (fun hop => .pure hop) fun _ => ?_
  refine .ite (fun hop => (ensures_s1 hE).bind fun _ _ => .pure (Or.inl hop)) fun _ => ?_
  refine .ite (fun hop => (ensures_s2 hE).bind fun _ _ => .pure (Or.inr (Or.inl hop))) fun _ => ?_
  refine .ite (fun hop => (ensures_u1 hE).bind fun _ _ => .pure (Or.inr (Or.inr hop))) fun _ => ?_
  refine .ite (fun _ => (ensures_u1 hE).bind fun i _ => (hloadable i).bind fun _ _ => .pure trivial)
    fun _ => ?_
  refine .ite (fun _ => (ensures_u2 hE).bind fun i _ => (hloadable i).bind fun _ _ => .pure trivial)
    fun _ => ?_
  refine .ite (fun hop => (ensures_u1 hE).bind fun _ _ => .pure hop) fun _ => ?_
  refine .ite (fun hop => .pure (isVar_normalize hop)) fun _ => ?_
  refine .ite (fun _ => (ensures_u1 hE).bind fun _ _ => (ensures_s1 hE).bind fun _ _ => .pure trivial)
    fun _ => ?_
  refine .ite (fun hop => (ensures_s2 hE).bind fun _ _ => .pure hop) fun _ => ?_
  refine .ite (fun hop => (ensures_s4 hE).bind fun _ _ => .pure (isJump_normalize hop)) fun _ => ?_
  refine .ite (fun _ => ensures_decodeTableSwitch p block start) fun _ => ?_
  refine .ite (fun _ => ensures_decodeLookupSwitch p block start) fun _ => ?_
  refine .ite (fun hop => (ensures_u2 hE).bind fun i _ => (hmember _ i).bind fun _ _ => .pure hop)
    fun _ => ?_
  refine .ite (fun hop => (ensures_u2 hE).bind fun i _ => (hmember _ i).bind fun _ _ => ?_) fun _ => ?_
  · refine .ite (fun _ => (ensures_skip hE 2).bind fun _ _ => .pure hop) fun _ => .pure hop
  refine .ite (fun _ => (ensures_readCallSite p).bind fun _ _ => .pure trivial) fun _ => ?_
  refine .ite (fun hop => (ensures_u2 hE).bind fun i _ => (hname i).bind fun _ _ => .pure ?_)
    fun _ => ?_
  · simpa only [Insn.Normal, Bool.or_eq_true, decide_eq_true_eq, or_assoc] using hop
  refine .ite (fun _ => (ensures_decodeWide p).bind fun _ hinsn => .pure hinsn) fun _ => ?_
  refine .ite (fun _ => (ensures_u2 hE).bind fun i _ => (hname i).bind fun _ _ => ?_) fun _ => ?_
  · refine (ensures_u1 hE).bind fun dimensions _ => ?_
    exact .ite (fun _ => .throw_bind (Or.inl ⟨_, rfl⟩)) fun _ => .pure (Int.natCast_nonneg _)
  · exact .throw (Or.inl ⟨_, rfl⟩)

/-! ## Methods -/

theorem normal_of_decodeFrom {fuel : Nat} {c : Cursor} {placed : List Placed}
    (h : decodeFrom p block fuel c = .ok placed) : ∀ q ∈ placed, q.insn.Normal := by
  induction fuel generalizing c placed with
  | zero =>
    cases h
    exact fun _ hq => nomatch hq
  | succ fuel ih =>
    unfold decodeFrom at h
    split at h
    · cases h
      exact fun _ hq => nomatch hq
    split at h
    · exact nomatch h
    rename_i insn refs next hinsn
    obtain ⟨rest, hrest, h⟩ := bind_eq_ok_iff.mp h
    cases h
    exact List.forall_mem_cons.mpr ⟨(ensures_decodeInsn p block _).of_ok hinsn, ih hrest⟩

theorem undecided_of_decodeFrom {fuel : Nat} {c : Cursor} {e : ClassError}
    (h : decodeFrom p block fuel c = .error e) : Undecided p e.cause := by
  induction fuel generalizing c with
  | zero => exact nomatch h
  | succ fuel ih =>
    unfold decodeFrom at h
    split at h
    · exact nomatch h
    split at h
    · rename_i e' hinsn
      cases h
      exact (ensures_decodeInsn p block _).of_error (e := e') hinsn
    · rcases bind_eq_error_iff.mp h with h | ⟨_, -, h⟩
      · exact ih h
      · exact nomatch h

/-- Labels between instructions are instructions that fit their codes. -/
theorem normal_of_mem_layOut {placed : List Placed} {size : Nat} {refs : List Int}
    (h : ∀ q ∈ placed, q.insn.Normal) : ∀ insn ∈ layOut block placed size refs, insn.Normal := by
  intro insn hinsn
  unfold layOut at hinsn
  rcases List.mem_append.mp hinsn with hinsn | hinsn
  · obtain ⟨q, hq, hinsn⟩ := List.mem_flatMap.mp hinsn
    split at hinsn
    · rcases List.mem_pair.mp hinsn with rfl | rfl
      · trivial
      · exact h q hq
    · rw [List.mem_singleton] at hinsn
      exact hinsn ▸ h q hq
  · split at hinsn
    · rw [List.mem_singleton] at hinsn
      exact hinsn ▸ trivial
    · exact nomatch hinsn

theorem ensures_readHandler : (readHandler p block).Ensures (fun _ => True) (Undecided p) := by
  have hE := undecided_truncated p
  unfold readHandler
  refine (ensures_u2 hE).bind fun start _ => (ensures_u2 hE).bind fun stop _ => ?_
  refine (ensures_u2 hE).bind fun handler _ => (ensures_u2 hE).bind fun catchType _ => ?_
  refine .ite (fun _ => .pure trivial) fun _ => ?_
  refine .bind (.ofExceptIn (fun _ _ => trivial) ?_) fun _ _ => .pure trivial
  exact (p.refuses_className catchType).undecided p

/-- **The body of a method** is made of instructions that fit their codes. -/
theorem ensures_readCode {m : Method} (hm : m.Normal) :
    (readCode p block m).Ensures Method.Normal (Undecided p) := by
  have hE := undecided_truncated p
  unfold readCode
  refine (ensures_u2 hE).bind fun maxStack _ => (ensures_u2 hE).bind fun maxLocals _ => ?_
  refine (ensures_u4 hE).bind fun n _ => (ensures_bytes hE n).bind fun code _ => ?_
  refine .bind (.liftM (fun _ h => normal_of_decodeFrom p block h)
    fun _ h => undecided_of_decodeFrom p block h) fun placed hplaced => ?_
  refine (ensures_u2 hE).bind fun count _ => ?_
  refine ((ensures_readHandler p block).times count).bind fun handlers _ => ?_
  refine (steady_skipAttributes.ensures.weaken fun _ => Or.inl).bind fun _ _ => ?_
  dsimp only
  split
  · exact .throw (Or.inl ⟨_, rfl⟩)
  · refine .pure ⟨Int.natCast_nonneg _, Int.natCast_nonneg _, fun insn hinsn => ?_⟩
    rw [← Array.mem_toList_iff, Array.toList_appendList, List.mem_append, Array.mem_toList_iff] at hinsn
    exact hinsn.elim (hm.insns insn) (normal_of_mem_layOut block hplaced insn)

theorem normal_of_decodeBlocks {codes : List (List UInt8)} {m m' : Method} (hm : m.Normal)
    (h : decodeBlocks p block codes m = .ok m') : m'.Normal := by
  induction codes generalizing block m with
  | nil =>
    cases h
    exact hm
  | cons code codes ih =>
    unfold decodeBlocks at h
    split at h
    · rename_i mid hmid
      exact ih (block + 1) ((ensures_readCode p block hm).of_runOn_ok hmid) h
    · exact nomatch h

theorem undecided_of_decodeBlocks {codes : List (List UInt8)} {m : Method} {e : ClassError}
    (hm : m.Normal) (h : decodeBlocks p block codes m = .error e) : Undecided p e.cause := by
  induction codes generalizing block m with
  | nil => exact nomatch h
  | cons code codes ih =>
    unfold decodeBlocks at h
    split at h
    · rename_i mid hmid
      exact ih (block + 1) ((ensures_readCode p block hm).of_runOn_ok hmid) h
    · rename_i e' he
      cases h
      exact (ensures_readCode p block hm).of_runOn_error (e := e') he

/-- A method without code. -/
theorem normal_codeless (raw : RawMethod) :
    Method.Normal ⟨raw.access, raw.name, raw.desc, 0, 0, #[], []⟩ :=
  ⟨Int.le_refl 0, Int.le_refl 0, fun _ h => nomatch h⟩

/-- **Decoding gives methods of instructions that fit their codes.** -/
theorem normal_of_decodeMethod {raw : RawMethod} {m : Method} (h : decodeMethod p raw = .ok m) :
    m.Normal := normal_of_decodeBlocks p 0 (normal_codeless raw) h

/-- **Decoding fails** with a verdict, or because a constant has no end. -/
theorem undecided_of_decodeMethod {raw : RawMethod} {e : ClassError}
    (h : decodeMethod p raw = .error e) : Undecided p e.cause :=
  undecided_of_decodeBlocks p 0 (normal_codeless raw) h

end

end ClassFile

end StackMap
