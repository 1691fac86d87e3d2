import StackMap.Proofs.Desc.Accepted
import StackMap.Proofs.Frame.Monotone

/-!
# `Proofs.Frame.Proper`: what instructions put into frames

Values get into frames as constants, from descriptors, from names of classes that nobody checks, and from
the components of arrays with such names. An operation can also give no value at all: a call of a `void`
method, or the load from an array that claims to have `void` components. Nothing of the kind reaches a
frame, since only values are pushed, and a stack that is within its bound stays there.

## Contents

* `Ty.Headed`, `Slot.Proper`: types whose descriptors fit their sorts, and the slots of frames.
* `Transfer.Proper`: transfer functions whose values are proper.
* `Effect.Acts.forall_locals`, `Effect.Acts.proper_given`: what effects write and push.
* `Frame.Executes.proper`, `Frame.Executes.bounded`: execution keeps slots proper and stacks bounded.
-/

namespace StackMap

/-! ## Types and slots -/

/-- **The descriptor of a type fits its sort**: that of a class starts with `L`, that of an array
with `[`. -/
def Ty.Headed : Ty → Prop
  | .object d => d.toList.head? = some 'L'
  | .array d => d.toList.head? = some '['
  | _ => True

/-- **The slots of frames**: nothing is known, or there is a value of one of the four primitive categories,
a return address, or a reference to an object or an array. No slot is empty. -/
inductive Slot.Proper : Slot → Prop where
  | uninit : Proper (some .uninit)
  | int : Proper (some .int)
  | float : Proper (some .float)
  | long : Proper (some .long)
  | double : Proper (some .double)
  | returnAddress : Proper (some .returnAddress)
  | object {d : String} : d.toList.head? = some 'L' → Proper (some (.object d))
  | array {d : String} : d.toList.head? = some '[' → Proper (some (.array d))

theorem Desc.headed_fieldType (s : List Char) : (fieldType s).Headed := by
  unfold fieldType
  split
  · show (String.ofList _).toList.head? = _
    rw [String.toList_ofList, List.head?_cons]
  · show (String.ofList _).toList.head? = _
    rw [String.toList_ofList, List.head?_cons]
  · unfold ofLetter?
    split <;> trivial
  · trivial

/-- What is accepted as a descriptor fits its sort. -/
theorem Desc.headed_of_parse {text : String} {t : Ty} (h : parse text = .ok t) : t.Headed := by
  obtain ⟨-, rfl⟩ := parse_eq_ok_iff.mp h
  unfold typeOf
  split
  · trivial
  · exact headed_fieldType _

/-- The type of a field descriptor fits its sort, also if the descriptor is not checked. -/
theorem Ty.headed_of_ofField {s : List Char} {t : Ty} (h : ofField s = .ok t) : t.Headed := by
  unfold ofField at h
  split at h
  · exact nomatch h
  · cases h
    exact Desc.headed_fieldType s

theorem proper_ofClassName (name : String) : Slot.Proper (some (Value.ofClassName name)) := by
  unfold Value.ofClassName Ty.ofClassName
  by_cases hhead : name.toList.head? = some '['
  · rw [if_pos hhead]
    exact .array hhead
  · rw [if_neg hhead]
    refine .object ?_
    show ("L" ++ name ++ ";").toList.head? = some 'L'
    rw [String.toList_append, String.toList_append]
    rfl

/-- The value of a type, if there is one. -/
theorem Ty.Headed.proper {t : Ty} {v : Slot} (ht : t.Headed) (h : Transfer.valueOf t = .ok v)
    (hv : v.isSome) : v.Proper := by
  cases t with
  | void =>
    cases h
    exact nomatch hv
  | method d => exact nomatch h
  | object d =>
    cases h
    exact .object ht
  | array d =>
    cases h
    exact .array ht
  | _ =>
    cases h
    constructor

/-! ## Transfer functions -/

namespace Transfer

/-- **Whatever value a transfer function gives is proper.** It may also give none. -/
def Proper (x : Except (Halt Cause) Slot) : Prop := ∀ v, x = .ok v → v.isSome → v.Proper

theorem proper_error (halt : Halt Cause) : Proper (.error halt) := fun _ h => nomatch h

theorem proper_none : Proper (.ok none) := by
  intro v h hv
  cases h
  exact nomatch hv

theorem proper_some {x : Value} (h : Slot.Proper (some x)) : Proper (.ok (some x)) := by
  intro v hv _
  cases hv
  exact h

theorem proper_ite {p : Prop} [Decidable p] {x y : Except (Halt Cause) Slot} (hx : Proper x)
    (hy : Proper y) : Proper (if p then x else y) := by
  split
  · exact hx
  · exact hy

theorem proper_result {t : Ty} (h : t.Headed) : Proper (result t) :=
  fun _ hv hsome => h.proper (mapError_eq_ok_iff.mp hv) hsome

theorem proper_className (name : String) : Proper (ofClassName name) :=
  proper_some (proper_ofClassName name)

theorem proper_ofDescriptor (desc : String) : Proper (ofDescriptor desc) := by
  unfold ofDescriptor
  split
  · exact proper_error _
  · exact proper_error _
  · exact proper_error _
  · rename_i hparse
    exact proper_result (Desc.headed_of_parse hparse)

theorem proper_ofConstant (c : Option Constant) : Proper (ofConstant c) := by
  unfold ofConstant
  split
  · exact proper_some .int
  · exact proper_some .float
  · exact proper_some .long
  · exact proper_some .double
  · exact proper_className _
  · exact proper_className _
  · exact proper_className _
  · exact proper_className _
  · exact proper_className _
  · split
    · exact proper_error _
    · exact proper_error _
    · exact proper_error _
    · rename_i hparse
      exact proper_result (Desc.headed_of_parse hparse)
  · exact proper_error _

theorem proper_ofField (insn : Insn) : Proper (ofField insn) := by
  unfold ofField
  split
  · exact proper_ofDescriptor _
  · exact proper_error _

theorem proper_nullary (insn : Insn) : Proper (nullary insn) := by
  unfold nullary
  refine proper_ite (proper_className _) (proper_ite (proper_some .int) ?_)
  refine proper_ite (proper_some .long) (proper_ite (proper_some .float) ?_)
  refine proper_ite (proper_some .double) (proper_ite ?_ ?_)
  · split
    · exact proper_ofConstant _
    · exact proper_error _
  refine proper_ite (proper_some .returnAddress) (proper_ite (proper_ofField insn) (proper_ite ?_ ?_))
  · split
    · exact proper_className _
    · exact proper_error _
  · exact proper_error _

/-- A value that carries no descriptor is proper. -/
theorem proper_of_category {op : Opcode} {x : Value}
    (h : unaryResult? op = some x ∨ binaryResult? op = some x) : Slot.Proper (some x) := by
  have hcategory : x = .int ∨ x = .float ∨ x = .long ∨ x = .double := by
    rcases h with h | h
    · unfold unaryResult? at h
      grind
    · unfold binaryResult? at h
      grind
  rcases hcategory with rfl | rfl | rfl | rfl
  · exact .int
  · exact .float
  · exact .long
  · exact .double

theorem head_of_primitiveArray? {tag : Int} {d : String} (h : primitiveArray? tag = some d) :
    d.toList.head? = some '[' := by
  unfold primitiveArray? at h
  repeat' split at h
  all_goals cases h
  all_goals rfl

theorem proper_unary (insn : Insn) : Proper (unary insn) := by
  unfold unary
  dsimp only
  split
  · rename_i x hx
    exact proper_some (proper_of_category (Or.inl hx))
  refine proper_ite proper_none (proper_ite (proper_ofField insn) (proper_ite ?_ (proper_ite ?_ ?_)))
  · split
    · split
      · rename_i hd
        exact proper_some (.array (head_of_primitiveArray? hd))
      · exact proper_error _
    · exact proper_error _
  · split
    · exact proper_ofDescriptor _
    · exact proper_error _
  · refine proper_ite ?_ (proper_error _)
    split
    · exact proper_className _
    · exact proper_error _

/-- **The load from an array gives the value of its component**, whatever its name claims that to be. -/
theorem proper_ofComponent (v : Slot) : Proper (ofComponent v) := by
  unfold ofComponent
  split
  · exact proper_error _
  · split
    · rename_i hcomponent
      exact proper_result (Ty.headed_of_ofField hcomponent)
    · exact proper_error _
  · exact proper_error _

theorem proper_binary (insn : Insn) (lower : Slot) : Proper (binary insn lower) := by
  unfold binary
  dsimp only
  split
  · rename_i x hx
    exact proper_some (proper_of_category (Or.inr hx))
  · exact proper_ite (proper_ofComponent lower) (proper_ite proper_none (proper_error _))

theorem proper_ofInvocation (desc : String) : Proper (ofInvocation desc) := by
  unfold ofInvocation
  split
  · exact proper_error _
  · split
    · rename_i hresult
      exact proper_result (Ty.headed_of_ofField hresult)
    · exact proper_error _
  · exact proper_error _

theorem proper_variadic (insn : Insn) : Proper (variadic insn) := by
  unfold variadic
  split
  · exact proper_ofDescriptor _
  · exact proper_ofInvocation _
  · exact proper_ofInvocation _
  · exact proper_error _

end Transfer

/-! ## Execution -/

namespace Effect.Acts

variable {S : Slot → Prop} {insn : Insn} {result : Slot} {effect : Effect}
  {locals locals' : Array Slot} {taken given : List Slot}

/-- **What an effect writes to local variables** was taken off the stack, or is nothing known, or is an
`int`. -/
theorem forall_locals (h : effect.Acts insn result locals taken locals' given)
    (huninit : S (some .uninit)) (hint : S (some .int)) (hlocals : ∀ v ∈ locals, S v)
    (htaken : ∀ v ∈ taken, S v) : ∀ v ∈ locals', S v := by
  cases h with
  | @store _ op k v hinsn hst =>
    intro w hw
    obtain ⟨j, hj⟩ := Array.mem_iff_getElem?.mp hw
    rw [getElem?_storedLocals] at hj
    obtain ⟨old, hold, rfl⟩ := Option.map_eq_some_iff.mp hj
    split
    · exact htaken v (List.mem_singleton_self v)
    · split
      · exact huninit
      · exact hlocals old (Array.mem_of_getElem? hold)
  | increment hinsn hk =>
    intro w hw
    rcases Array.mem_or_eq_of_mem_setIfInBounds hw with hw | rfl
    · exact hlocals w hw
    · exact hint
  | _ => exact hlocals

/-- **What an effect puts on the stack** is a local variable, was on the stack before, or is what a transfer
function gives. -/
theorem proper_given (h : effect.Acts insn result locals taken locals' given)
    (hlocals : ∀ v ∈ locals, v.Proper) (htaken : ∀ v ∈ taken, v.Proper) :
    ∀ v ∈ given, v.isSome → v.Proper := by
  intro v hv hsome
  cases h with
  | produce hx =>
    cases List.mem_singleton.mp hv
    exact Transfer.proper_nullary insn v hx hsome
  | load hinsn hx =>
    cases List.mem_singleton.mp hv
    exact hlocals v (Array.mem_of_getElem? hx)
  | combine hx =>
    cases List.mem_singleton.mp hv
    exact Transfer.proper_binary insn _ v hx hsome
  | rearrange hform htakes =>
    obtain ⟨i, -, rfl⟩ := List.mem_map.mp hv
    obtain ⟨x, hx⟩ := Option.isSome_iff_exists.mp hsome
    rw [hx]
    exact htaken _ (List.mem_of_getElem? (Option.join_eq_some_iff.mp hx))
  | convert hx =>
    cases List.mem_singleton.mp hv
    exact Transfer.proper_unary insn v hx hsome
  | invoke _ _ _ _ hx _ =>
    split at hv
    · exact nomatch hv
    · cases List.mem_singleton.mp hv
      exact Transfer.proper_variadic insn v hx hsome
  | multiArray _ _ hx =>
    cases List.mem_singleton.mp hv
    exact Transfer.proper_variadic insn v hx hsome
  | _ => exact nomatch hv

end Effect.Acts

namespace Frame

variable {insn : Insn} {f f' : Frame}

/-- The stack is within its bound, if there is one. -/
def Bounded (f : Frame) : Prop := 0 < f.maxStack → f.stack.length ≤ f.maxStack

/-- **Execution keeps slots proper**: what is pushed is a value. -/
theorem Executes.proper (h : f.Executes insn f') (hf : f.Each Slot.Proper) :
    f'.Each Slot.Proper := by
  obtain ⟨-, hacts, rest, hs, hgiven, -, rfl⟩ := h
  have hstack : ∀ v ∈ _ ++ rest, v.Proper := hs ▸ hf.stack
  rw [List.forall_mem_append] at hstack
  refine ⟨hacts.forall_locals .uninit .int hf.locals hstack.1, List.forall_mem_append.mpr ⟨?_, hstack.2⟩⟩
  intro v hv
  exact hacts.proper_given hf.locals hstack.1 v hv (hgiven v hv)

/-- **Execution keeps stacks bounded**: each push looks at the bound. -/
theorem Executes.bounded (h : f.Executes insn f') (hf : f.Bounded) : f'.Bounded := by
  obtain ⟨-, -, rest, hs, -, hroom, rfl⟩ := h
  intro hmax
  have hheight := hf hmax
  rw [hs, List.length_append] at hheight
  rw [List.length_append]
  rcases hroom with rfl | hroom | hroom
  · exact Nat.le_trans (by rw [List.length_nil]; omega) hheight
  · exact absurd hroom (Nat.ne_of_gt hmax)
  · rw [Nat.add_comm]
    exact hroom

end Frame

end StackMap
