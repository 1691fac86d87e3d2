import StackMap.Proofs.Frame.Run

/-!
# `Proofs.Frame.Effect`: execution as a relation

An instruction takes some entries off the stack, puts others back and may write local variables. The
entries below those that it takes stay as they are. `Effect.Acts` says for each effect what is taken, put
back and written; `Frame.Executes` sets that in a frame. A run of an instruction succeeds exactly if the
relation holds (`Proofs.Frame.Execute`), so everything that is proved about instructions can be read off
`Effect.Acts`.

## Contents

* `StackOp.Form`, `StackOp.forms`: the forms of the stack instructions, by the sizes of their operands.
* `Effect.Acts`, `Frame.Executes`: the relation.
* `Exec.run_push_after`, `Exec.replaces_drop_iff`: runs that put entries back, or none.
-/

namespace StackMap

/-! ## Stack instructions -/

/-- **A form of a stack instruction**: the sizes of the entries that it takes and the places, among
these, of the entries that it puts back. Both lists start at the top. -/
structure StackOp.Form where
  widths : List Nat
  picks : List Nat

/-- The entries that a form takes have the sizes that it names. -/
def StackOp.Form.Takes (form : StackOp.Form) (taken : List Slot) : Prop :=
  taken.map Slot.width = form.widths.map some

/-- The entries that a form puts back. -/
def StackOp.Form.given (form : StackOp.Form) (taken : List Slot) : List Slot :=
  form.picks.map fun i => taken[i]?.join

/-- **The forms of a stack instruction.** No form splits a value of size two. -/
def StackOp.forms : StackOp → List StackOp.Form
  | .pop => [⟨[1], []⟩]
  | .pop2 => [⟨[2], []⟩, ⟨[1, 1], []⟩]
  | .dup => [⟨[1], [0, 0]⟩]
  | .dupX1 => [⟨[1, 1], [0, 1, 0]⟩]
  | .dupX2 => [⟨[1, 2], [0, 1, 0]⟩, ⟨[1, 1, 1], [0, 1, 2, 0]⟩]
  | .dup2 => [⟨[2], [0, 0]⟩, ⟨[1, 1], [0, 1, 0, 1]⟩]
  | .dup2X1 => [⟨[2, 1], [0, 1, 0]⟩, ⟨[1, 1, 1], [0, 1, 2, 0, 1]⟩]
  | .dup2X2 =>
    [⟨[2, 2], [0, 1, 0]⟩, ⟨[2, 1, 1], [0, 1, 2, 0]⟩, ⟨[1, 1, 2], [0, 1, 2, 0, 1]⟩,
      ⟨[1, 1, 1, 1], [0, 1, 2, 3, 0, 1]⟩]
  | .swap => [⟨[1, 1], [1, 0]⟩]

/-! ## The relation -/

/-- The local variables after a store of `v` to the variable `k`. A value of size two also takes the
next variable, and one whose second half is overwritten is lost. -/
def storedLocals (locals : Array Slot) (k : Nat) (v : Slot) : Array Slot :=
  locals.mapIdx fun j old =>
    if j = k then v
    else if (j = k + 1 ∧ v.width = some 2) ∨ (j + 1 = k ∧ old.width = some 2) then some .uninit
    else old

/-- **What a store needs**: the variables that it writes, a value to store, and one in the variable
before. -/
structure Storable (locals : Array Slot) (k : Nat) (v : Slot) : Prop where
  inside : k < locals.size
  present : v.isSome
  next : v.width = some 2 → k + 1 < locals.size
  previous : ∀ j w, j + 1 = k → locals[j]? = some w → w.isSome

/-- The descriptor that an invocation names. -/
def Insn.invoked? : Insn → Option String
  | .method _ _ _ desc _ => some desc
  | .dynamic _ desc _ _ => some desc
  | _ => none

/-- The number of entries that an invocation takes for its receiver. -/
def Insn.receivers (insn : Insn) : Nat :=
  if insn.opcode ≠ .invokestatic ∧ insn.opcode ≠ .invokedynamic then 1 else 0

/-- **What an effect does**: `Acts insn result effect locals taken locals' given` takes the entries
`taken`, puts back `given` and turns the local variables `locals` into `locals'`, in a method that returns
`result`. -/
inductive Effect.Acts (insn : Insn) (result : Slot) :
    Effect → Array Slot → List Slot → Array Slot → List Slot → Prop where
  | idle {locals : Array Slot} : Acts insn result .idle locals [] locals []
  | produce {locals : Array Slot} {v : Slot} :
      Transfer.nullary insn = .ok v → Acts insn result .produce locals [] locals [v]
  | load {locals : Array Slot} {op : Opcode} {k : Nat} {v : Slot} :
      insn = .var op k → locals[k]? = some v → Acts insn result .load locals [] locals [v]
  | store {locals : Array Slot} {op : Opcode} {k : Nat} {v : Slot} :
      insn = .var op k → Storable locals k v →
      Acts insn result .store locals [v] (storedLocals locals k v) []
  | combine {locals : Array Slot} {upper lower v : Slot} :
      Transfer.binary insn lower = .ok v →
      Acts insn result .combine locals [upper, lower] locals [v]
  | storeElement {locals : Array Slot} {taken : List Slot} :
      taken.length = 3 → Acts insn result .storeElement locals taken locals []
  | rearrange {locals : Array Slot} {op : StackOp} {form : StackOp.Form} {taken : List Slot} :
      form ∈ op.forms → form.Takes taken →
      Acts insn result (.rearrange op) locals taken locals (form.given taken)
  | convert {locals : Array Slot} {operand v : Slot} :
      Transfer.unary insn = .ok v → Acts insn result .convert locals [operand] locals [v]
  | increment {locals : Array Slot} {k : Nat} {amount : Int} :
      insn = .iinc k amount → k < locals.size →
      Acts insn result .increment locals [] (locals.setIfInBounds k (some .int)) []
  | consume {locals : Array Slot} {operand v : Slot} :
      Transfer.unary insn = .ok v → Acts insn result .consume locals [operand] locals []
  | consumeTwo {locals : Array Slot} {upper lower v : Slot} :
      Transfer.binary insn lower = .ok v →
      Acts insn result .consumeTwo locals [upper, lower] locals []
  | returnValue {locals : Array Slot} {operand v : Slot} :
      Transfer.unary insn = .ok v → Acts insn result .returnValue locals [operand] locals []
  | returnVoid {locals : Array Slot} :
      result = none → Acts insn result .returnVoid locals [] locals []
  | invoke {locals : Array Slot} {desc : String} {t r : Ty} {arguments : List Ty} {v : Slot}
      {taken : List Slot} :
      insn.invoked? = some desc → Desc.parseMethod desc = .ok t → t.arguments = .ok arguments →
      taken.length = arguments.length + insn.receivers →
      Transfer.variadic insn = .ok v → t.result = .ok r →
      Acts insn result .invoke locals taken locals (if r = .void then [] else [v])
  | multiArray {locals : Array Slot} {desc : String} {n : Nat} {v : Slot} {taken : List Slot} :
      insn = .multiArray desc n → taken.length = n → Transfer.variadic insn = .ok v →
      Acts insn result .multiArray locals taken locals [v]

/-- `f'` is `f` with the entries `taken` replaced by `given` and with other local variables. All that is
put on the stack has to be there and has to fit. -/
def Frame.Replaces (f : Frame) (taken given : List Slot) (locals : Array Slot) (f' : Frame) : Prop :=
  ∃ rest, f.stack = taken ++ rest ∧ (∀ v ∈ given, v.isSome) ∧
    (given = [] ∨ { f with stack := rest }.HasRoom given.length) ∧
    f' = { f with locals, stack := given ++ rest }

/-- **Execution as a relation.** -/
inductive Frame.Executes (insn : Insn) (f f' : Frame) : Prop where
  | mk {effect : Effect} {taken given : List Slot} {locals : Array Slot} :
      insn.opcode.effect? = some effect → effect.Acts insn f.result f.locals taken locals given →
      f.Replaces taken given locals f' → Executes insn f f'

/-! ## Pushing after popping -/

namespace Exec

variable {f f' : Frame} {u : Unit} {taken rest : List Slot}

theorem run_pushAll_after {insn : Insn} {vs : List Slot} (hs : f.stack = taken ++ rest) :
    (pushAll insn vs).run { f with stack := rest } = .ok u f' ↔
      f.Replaces taken vs.reverse f.locals f' := by
  rw [run_pushAll_eq_ok_iff]
  constructor
  · rintro ⟨hvs, hroom, rfl⟩
    refine ⟨rest, hs, by simpa using hvs, ?_, rfl⟩
    simpa using hroom
  · rintro ⟨rest', hs', hvs, hroom, rfl⟩
    obtain rfl : rest = rest' := List.append_cancel_left (hs.symm.trans hs')
    exact ⟨by simpa using hvs, by simpa using hroom, rfl⟩

theorem run_push_after {insn : Insn} {v : Slot} (hs : f.stack = taken ++ rest) :
    (push insn v).run { f with stack := rest } = .ok u f' ↔ f.Replaces taken [v] f.locals f' := by
  have h : (pushAll insn [v]).run { f with stack := rest } = .ok u f' ↔
      f.Replaces taken [v].reverse f.locals f' := run_pushAll_after hs
  rw [← List.reverse_singleton, ← h, run_pushAll_eq_ok_iff, run_push_eq_ok_iff]
  simp

/-- Nothing is put back. -/
theorem replaces_drop_iff (hs : f.stack = taken ++ rest) :
    f.Replaces taken [] f.locals f' ↔ f' = { f with stack := rest } := by
  constructor
  · rintro ⟨rest', hs', _, _, rfl⟩
    obtain rfl : rest = rest' := List.append_cancel_left (hs.symm.trans hs')
    rfl
  · rintro rfl
    exact ⟨rest, hs, by simp, Or.inl rfl, rfl⟩

/-- Nothing is taken, nor put back. -/
theorem replaces_nil_iff {locals : Array Slot} :
    f.Replaces [] [] locals f' ↔ f' = { f with locals } := by
  constructor
  · rintro ⟨rest, hs, _, _, rfl⟩
    rw [List.nil_append] at hs
    rw [hs]
    rfl
  · rintro rfl
    exact ⟨f.stack, rfl, by simp, Or.inl rfl, rfl⟩

end Exec

end StackMap
