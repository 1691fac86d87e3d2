import StackMap.Proofs.ClassFile.Decode

/-!
# `Proofs.ClassFile.Verdict`: every file gets a class or a verdict

Reading a class file ends with a class or with one of five verdicts, unless the code of a method loads a
constant whose resolution has no end. Such a constant is an argument of itself, directly or through other
dynamic constants.

## Contents

* `classPool`: the constant pool of a file, with its bootstrap methods.
* `parse_verdict`: the outcomes of reading a file, and of resolving a constant.
* `normal_of_parse`: the methods of a class that was read.
* `SelfConstant`, `parse_without_verdict`: a file that gets no verdict.
-/

namespace StackMap.ClassFile

open Reader

/-! ## The attributes of the class -/

theorem steady_readBootstrapMethods : readBootstrapMethods.Steady := by
  unfold readBootstrapMethods
  refine steady_u2.bind fun count => .times ?_ count
  exact steady_u2.bind fun handle => steady_u2.bind fun k => (steady_u2.times k).bind fun _ => .pure _

theorem ensures_readAttributeName (pool : Pool) :
    (readAttributeName pool).Ensures (fun _ => True) Verdict := by
  unfold readAttributeName
  refine .bind (Q := fun _ => True) ?_ fun i _ => (steady_utf8 pool _ i).ensures
  rintro ⟨rest, offset⟩
  match rest with
  | _ :: _ :: _ => trivial
  | [_] => trivial
  | [] => trivial

theorem ensures_readClassAttribute (pool : Pool) :
    (readClassAttribute pool).Ensures (fun _ => True) Verdict := by
  unfold readClassAttribute
  refine (ensures_readAttributeName pool).bind fun name _ => steady_u4.ensures.bind fun n _ => ?_
  refine (steady_bytes n).ensures.bind fun data _ => .liftM (fun _ _ => trivial) fun e he => ?_
  unfold withAttribute at he
  split at he
  · split at he
    · exact nomatch he
    · rename_i e' he'
      cases he
      exact steady_readBootstrapMethods.ensures.of_runOn_error (e := e') he'
  · exact nomatch he

theorem ensures_readClassAttributes (pool : Pool) (count : Nat) :
    (readClassAttributes pool count).Ensures (fun _ => True) Verdict := by
  induction count generalizing pool with
  | zero => exact .pure trivial
  | succ count ih => exact (ensures_readClassAttribute pool).bind fun pool' _ => ih pool'

/-! ## Whole files -/

/-- **The constant pool of a file**, with its bootstrap methods. -/
def classPool : Reader Pool := do
  let h ← readHeader
  readClassAttributes h.pool h.attributes

/-- **Reading a class**: its pool is read first, and only then can there be no verdict. -/
theorem readClass_eq_error {c : Cursor} {e : ClassError} (h : readClass c = .error e) :
    Verdict e.cause ∨
      ∃ pool c', classPool c = .ok (pool, c') ∧ e.cause = .endlessConstant ∧ ∃ i, pool.Endless i := by
  unfold readClass at h
  rcases bind_error_iff.mp h with h | ⟨header, c₁, hheader, h⟩
  · exact Or.inl (steady_readHeader.ensures.of_error h)
  rcases bind_error_iff.mp h with h | ⟨pool, c₂, hpool, h⟩
  · exact Or.inl ((ensures_readClassAttributes _ _).of_error h)
  have hclassPool : classPool c = .ok (pool, c₂) := by
    unfold classPool
    rw [bind_of_ok hheader]
    exact hpool
  -- What is left is to decode the methods.
  rcases bind_error_iff.mp h with h | ⟨_, _, -, h⟩
  · obtain ⟨raw, -, hraw⟩ := exists_of_mapM_eq_error (liftM_error_iff.mp h)
    rcases undecided_of_decodeMethod pool hraw with hverdict | hendless
    · exact Or.inl hverdict
    · exact Or.inr ⟨pool, c₂, hclassPool, hendless⟩
  · exact nomatch h

/-- A file gets a class or a verdict, unless it has a constant without end. -/
theorem parse_outcome (data : List UInt8) :
    (∃ c, parse data = .ok c) ∨
      (∃ e kind, parse data = .error e ∧ e.cause.kind? = some kind) ∨
      ∃ e pool i, parse data = .error e ∧ e.cause = .endlessConstant ∧
        classPool.runOn data = .ok pool ∧ pool.Endless i := by
  cases hparse : parse data with
  | ok c => exact Or.inl ⟨c, rfl⟩
  | error e =>
    refine Or.inr ?_
    unfold parse runOn at hparse
    split at hparse
    · exact nomatch hparse
    rename_i hread
    cases hparse
    rcases readClass_eq_error hread with ⟨kind, hkind⟩ | ⟨pool, c, hpool, hcause, i, hi⟩
    · exact Or.inl ⟨e, kind, rfl, hkind⟩
    · refine Or.inr ⟨e, pool, i, rfl, hcause, ?_, hi⟩
      unfold runOn
      rw [hpool]

/-- The resolution of a constant ends, with an outcome that no larger bound on the depth changes, unless
constants use one another in a circle. -/
theorem Pool.loadable_outcome (p : Pool) (i : Nat) :
    (p.loadable i ≠ .error .endlessConstant ∧
      ∃ depth, ∀ depth' ≥ depth, p.loadableWithin depth' i = p.loadable i) ∨
    p.Endless i ∧ ∃ j, Relation.ReflTransGen p.Uses i j ∧ Relation.TransGen p.Uses j j := by
  by_cases hi : p.loadable i = .error .endlessConstant
  · have hendless := Pool.endless_iff.mpr hi
    exact Or.inr ⟨hendless, hendless.exists_cycle⟩
  · exact Or.inl ⟨hi, p.entries.size + 1, fun _ hle => Pool.loadableWithin_of_le hi hle⟩

/-- **The outcomes of reading a file, and of resolving a constant.** A file gets a class or a verdict,
unless it has a constant without end. A constant without end uses others in a circle; the resolution of
any other ends with an outcome that no bound on the depth changes if it is large enough. -/
theorem parse_verdict (data : List UInt8) (p : Pool) (i : Nat) :
    ((∃ c, parse data = .ok c) ∨
      (∃ e kind, parse data = .error e ∧ e.cause.kind? = some kind) ∨
      ∃ e pool i, parse data = .error e ∧ e.cause = .endlessConstant ∧
        classPool.runOn data = .ok pool ∧ pool.Endless i) ∧
    ((p.loadable i ≠ .error .endlessConstant ∧
        ∃ depth, ∀ depth' ≥ depth, p.loadableWithin depth' i = p.loadable i) ∨
      p.Endless i ∧ ∃ j, Relation.ReflTransGen p.Uses i j ∧ Relation.TransGen p.Uses j j) :=
  ⟨parse_outcome data, p.loadable_outcome i⟩

/-- The methods of a class that was read are made of instructions that fit their codes. -/
theorem normal_of_parse {data : List UInt8} {c : Class} (h : parse data = .ok c) :
    ∀ m ∈ c.methods, m.Normal := by
  unfold parse runOn at h
  split at h
  · rename_i hread
    cases h
    unfold readClass at hread
    obtain ⟨header, c₁, -, hread⟩ := bind_ok_iff.mp hread
    obtain ⟨pool, c₂, -, hread⟩ := bind_ok_iff.mp hread
    obtain ⟨methods, c₃, hmethods, hread⟩ := bind_ok_iff.mp hread
    cases hread
    intro m hm
    obtain ⟨raw, -, hraw⟩ := exists_of_mem_mapM (liftM_ok_iff.mp hmethods).1 hm
    exact normal_of_decodeMethod pool hraw
  · exact nomatch h

/-! ## A constant that is its own argument -/

namespace SelfConstant

/-- The entries of the pool. The last one is a dynamic constant of the first bootstrap method. -/
def entries : List UInt8 :=
  [1, 0, 1, 0x41, 7, 0, 1, 1, 0, 4, 0x43, 0x6f, 0x64, 0x65,
    1, 0, 16, 0x42, 0x6f, 0x6f, 0x74, 0x73, 0x74, 0x72, 0x61, 0x70, 0x4d, 0x65, 0x74, 0x68, 0x6f, 0x64,
    0x73, 1, 0, 3, 0x28, 0x29, 0x56, 12, 0, 1, 0, 5, 10, 0, 2, 0, 6, 15, 6, 0, 7, 17, 0, 0, 0, 6]

/-- A method whose code loads the constant and returns. -/
def method : List UInt8 :=
  [0, 8, 0, 1, 0, 5, 0, 1, 0, 3, 0, 0, 0, 16, 0, 1, 0, 0, 0, 0, 0, 4, 0x12, 9, 0x57, 0xb1, 0, 0, 0, 0]

/-- The table of bootstrap methods: there is one, and the constant is its argument. -/
def bootstrap : List UInt8 := [0, 4, 0, 0, 0, 8, 0, 1, 0, 8, 0, 1, 0, 9]

def data : List UInt8 :=
  [0xCA, 0xFE, 0xBA, 0xBE, 0, 0, 0, 0x37, 0, 10] ++ entries ++
    [0, 0, 0, 2, 0, 0, 0, 0, 0, 0, 0, 1] ++ method ++ [0, 1] ++ bootstrap

theorem parse_eq : parse data = .error ⟨[.method "A()V", .instruction 0], .endlessConstant⟩ :=
  eq_error_of_errorOf? (by decide +kernel)

def pool : Pool where
  entries := #[.unused, .utf8 "A", .classRef 1, .utf8 "Code", .utf8 "BootstrapMethods", .utf8 "()V",
    .nameAndType 1 5, .methodRef 2 6, .methodHandle 6 7, .dynamic 0 6]
  bootstrap := [⟨8, [9]⟩]

theorem classPool_eq : classPool.runOn data = .ok pool := eq_ok_of_toOption (by decide +kernel)

theorem endless : pool.Endless 9 :=
  Pool.endless_iff.mpr (eq_error_of_errorOf? (by decide +kernel))

end SelfConstant

/-- **There are files that get no verdict**, and files with constants for which no bound on the depth is
enough. -/
theorem parse_without_verdict :
    (¬ ∀ data : List UInt8, (∃ c, parse data = .ok c) ∨
      ∃ e kind, parse data = .error e ∧ e.cause.kind? = some kind) ∧
    ¬ ∀ (data : List UInt8) (pool : Pool) (i : Nat), classPool.runOn data = .ok pool →
      ∃ depth, pool.loadableWithin depth i ≠ .error .endlessConstant := by
  refine ⟨fun h => ?_, fun h => ?_⟩
  · rcases h SelfConstant.data with ⟨c, hc⟩ | ⟨e, kind, he, hkind⟩
    · rw [SelfConstant.parse_eq] at hc
      exact nomatch hc
    · rw [SelfConstant.parse_eq] at he
      cases he
      exact nomatch hkind
  · obtain ⟨depth, hdepth⟩ := h SelfConstant.data SelfConstant.pool 9 SelfConstant.classPool_eq
    exact hdepth (SelfConstant.endless depth)

end StackMap.ClassFile
