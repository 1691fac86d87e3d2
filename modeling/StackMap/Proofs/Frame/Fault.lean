import StackMap.Proofs.ClassFile.Decode
import StackMap.Proofs.Desc.Accepted
import StackMap.Proofs.Frame.Keeps

/-!
# `Proofs.Frame.Fault`: the faults of instructions that fit their codes

If an instruction fits its operation code and all slots of a frame hold values, one fault is left: the
load from an array that has no component. No instruction makes such a value from a descriptor, since these
are checked. Names of classes are not, so a name that consists of `[` only is an excuse for the fault, and
there is no other.

## Contents

* `Bracketed`, `Slot.Sound`: names that are arrays of nothing, and values that are not.
* `Transfer.Yields`: what transfer functions give.
* `Opcode.selfContained`: codes for which the operands do not matter.
* `Exec.safe_execute`: the run of an instruction that fits its code.
-/

namespace StackMap

/-- **The name of an array of nothing**: it consists of `[` only. -/
def Bracketed (name : String) : Prop := name ≠ "" ∧ ∀ c ∈ name.toList, c = '['

instance (name : String) : Decidable (Bracketed name) :=
  decidable_of_iff (name ≠ "" ∧ name.toList.all (· == '[')) (by simp [Bracketed])

/-- **A slot holds a value**, which is no array of nothing unless there is an excuse. -/
def Slot.Sound (excused : Prop) (v : Slot) : Prop :=
  ∃ x : Value, v = some x ∧ (x.type.Whole ∨ excused)

/-- The fault of a load from an array of nothing, for which there has to be an excuse. -/
def EndFault (excused : Prop) (h : Fault) : Prop := h = .type .endOfText ∧ excused

/-- The class that an instruction makes a value of by its name alone. -/
def Insn.namedClass? : Insn → Option String
  | .type op name => if op = .new ∨ op = .checkcast then some name else none
  | _ => none

variable {excused : Prop}

theorem Slot.Sound.isSome {v : Slot} (h : v.Sound excused) : v.isSome := by
  obtain ⟨x, rfl, -⟩ := h
  rfl

theorem Slot.sound_uninit : Slot.Sound excused (some .uninit) := ⟨.uninit, rfl, Or.inl trivial⟩

/-- **The value of a class**, if its name is not one of an array of nothing. -/
theorem sound_ofClassName {name : String} (h : Bracketed name → excused) :
    Slot.Sound excused (some (Value.ofClassName name)) := by
  refine ⟨_, rfl, ?_⟩
  unfold Value.ofClassName Ty.ofClassName
  by_cases hhead : name.toList.head? = some '['
  · -- The name is the descriptor of an array, and it may end before its component.
    rw [if_pos hhead]
    obtain ⟨tail, htail⟩ := List.head?_eq_some_iff.mp hhead
    by_cases hall : ∀ c ∈ name.toList, c = '['
    · refine Or.inr (h ⟨?_, hall⟩)
      rintro rfl
      exact nomatch hhead
    · refine Or.inl ?_
      show ∃ c ∈ name.toList.tail, c ≠ '['
      push Not at hall
      obtain ⟨c, hc, hne⟩ := hall
      rw [htail] at hc ⊢
      rcases List.mem_cons.mp hc with rfl | hc
      · exact absurd rfl hne
      · exact ⟨c, hc, hne⟩
  · rw [if_neg hhead]
    exact Or.inl trivial

/-! ## Transfer functions -/

/-- What holds of both branches, where they give something. -/
theorem forall_ite_eq_some {α : Type} {P : α → Prop} {p : Prop} [Decidable p] {x y : Option α}
    (hx : ∀ a, x = some a → P a) (hy : ∀ a, y = some a → P a) :
    ∀ a, (if p then x else y) = some a → P a := by
  split
  · exact hx
  · exact hy

namespace Transfer

/-- **What a transfer function gives**: no value or a sound one, unless it fails or faults. -/
def Yields (excused : Prop) : Except (Halt Cause) Slot → Prop
  | .ok v => v.isSome → v.Sound excused
  | .error (.failed _) => True
  | .error (.fault h) => EndFault excused h

theorem yields_some {v : Value} (h : v.type.Whole) : Yields excused (.ok (some v)) :=
  fun _ => ⟨v, rfl, Or.inl h⟩

theorem yields_none : Yields excused (.ok none) := fun hsome => nomatch hsome

theorem yields_ite {p : Prop} [Decidable p] {x y : Except (Halt Cause) Slot}
    (hx : p → Yields excused x) (hy : ¬ p → Yields excused y) :
    Yields excused (if p then x else y) := by
  split
  · exact hx ‹_›
  · exact hy ‹_›

/-- A value of a type that is no method. -/
theorem yields_result {t : Ty} (hmethod : ∀ d, t ≠ .method d) (h : t.Whole ∨ excused) :
    Yields excused (result t) := by
  cases t with
  | method d => exact absurd rfl (hmethod d)
  | void => exact yields_none
  | array d => exact fun _ => ⟨.array d, rfl, h⟩
  | _ => exact yields_some trivial

theorem ne_method_of_whole {t : Ty} (h : t.Whole) (d : String) : t ≠ .method d := by
  rintro rfl
  exact h

theorem yields_ofClassName {name : String} (h : Bracketed name → excused) :
    Yields excused (ofClassName name) := fun _ => sound_ofClassName h

/-- The value of what is accepted and no method. -/
theorem yields_result_of_parse {text : String} {t : Ty} (h : Desc.parse text = .ok t)
    (hmethod : ∀ d, t ≠ .method d) : Yields excused (result t) :=
  yields_result hmethod (Or.inl (Desc.whole_of_parse h hmethod))

theorem yields_ofDescriptor (desc : String) : Yields excused (ofDescriptor desc) := by
  unfold ofDescriptor
  split
  · trivial
  · trivial
  · trivial
  · rename_i hmethod hparse
    exact yields_result_of_parse hparse hmethod

theorem yields_ofConstant (c : Option Constant) : Yields excused (ofConstant c) := by
  have hname : ∀ name, ¬ Bracketed name → Yields excused (ofClassName name) :=
    fun name hname => yields_ofClassName fun h => absurd h hname
  cases c with
  | none => trivial
  | some c =>
    cases c with
    | int _ | float _ | long _ | double _ => exact yields_some trivial
    | string _ => exact hname _ (by decide)
    | handle _ => exact hname _ (by decide)
    | type t =>
      cases t with
      | object _ | array _ => exact hname _ (by decide)
      | method _ => exact hname _ (by decide)
      | _ => trivial
    | dynamic name desc bootstrap args =>
      dsimp only [ofConstant]
      split
      · trivial
      · trivial
      · trivial
      · rename_i hmethod hparse
        exact yields_result_of_parse hparse hmethod

theorem yields_ofInvocation (desc : String) : Yields excused (ofInvocation desc) := by
  unfold ofInvocation
  split
  · trivial
  · rename_i d hparse
    obtain ⟨t, hresult, hwhole⟩ := Ty.exists_result hparse
    rw [hresult]
    exact yields_result (ne_method_of_whole hwhole) (Or.inl hwhole)
  · trivial

/-- **The load from an array** faults only on an array of nothing. The component of such an array may be
one as well, so the excuse goes with it. -/
theorem yields_ofComponent {v : Slot} (h : v.Sound excused) : Yields excused (ofComponent v) := by
  obtain ⟨x, rfl, hx⟩ := h
  cases x with
  | array d =>
    unfold ofComponent
    simp only
    rcases hx with hwhole | hexcused
    · obtain ⟨t, ht, hwhole⟩ := Ty.exists_component hwhole
      rw [ht]
      exact yields_result (ne_method_of_whole hwhole) (Or.inl hwhole)
    · -- Nothing is known of the array, so there may be a component or none.
      rcases Ty.ofField_outcome (d.toList.drop 1) with ⟨t, ht, hmethod⟩ | hend
      · rw [show (Ty.array d).component = .ok t from ht]
        exact yields_result hmethod (Or.inr hexcused)
      · rw [show (Ty.array d).component = .error .endOfText from hend]
        exact ⟨rfl, hexcused⟩
  | _ => trivial

/-! Which code gives which category does not matter, only that no category is one of arrays. -/

theorem whole_of_unaryResult? (op : Opcode) : ∀ v, unaryResult? op = some v → v.type.Whole := by
  unfold unaryResult?
  repeat' apply forall_ite_eq_some
  all_goals rintro v ⟨⟩
  all_goals trivial

theorem whole_of_binaryResult? (op : Opcode) : ∀ v, binaryResult? op = some v → v.type.Whole := by
  unfold binaryResult?
  dsimp only
  repeat' apply forall_ite_eq_some
  all_goals rintro v ⟨⟩
  all_goals trivial

/-- The arrays that `newarray` makes have components. -/
theorem whole_of_primitiveArray? (tag : Int) :
    ∀ d, primitiveArray? tag = some d → (Ty.array d).Whole := by
  unfold primitiveArray?
  repeat' apply forall_ite_eq_some
  all_goals rintro d ⟨⟩
  all_goals exact ⟨_, List.mem_cons_self, by decide⟩

end Transfer

/-! ## Codes that decide alone -/

/-- **Codes for which the operands of the node do not matter.** -/
def Opcode.selfContained (op : Opcode) : Bool :=
  match op.effect? with
  | some .idle | some .storeElement | some (.rearrange _) | some .returnVoid => true
  | some .produce => op.between 0x01 0x11 || op = .jsr
  | some .convert | some .consume | some .returnValue =>
    (Transfer.unaryResult? op).isSome || Transfer.isUnarySink op
  | some .combine | some .consumeTwo =>
    (Transfer.binaryResult? op).isSome || op.code = 0x32 || Transfer.isBinarySink op
  | _ => false

namespace Opcode

/-- What holds of the codes of a byte one by one holds of any of them. -/
theorem forall_byte {P : Opcode → Prop} (h : ∀ code < 256, P ⟨(code : Nat)⟩) {op : Opcode}
    (hop : op.between 0 255) : P op := by
  obtain ⟨code⟩ := op
  simp only [between, Bool.and_eq_true, decide_eq_true_eq] at hop
  obtain ⟨code, rfl⟩ := Int.eq_ofNat_of_zero_le hop.1
  exact h code (by omega)

theorem between_byte {op : Opcode} {low high : Int} (h : op.between low high) (hlow : 0 ≤ low)
    (hhigh : high ≤ 255) : op.between 0 255 := by
  simp only [between, Bool.and_eq_true, decide_eq_true_eq] at h ⊢
  omega

theorem effect?_of_isLoad {op : Opcode} (h : op.isLoad) : op.effect? = some .load :=
  forall_byte (P := fun op => op.isLoad → op.effect? = some .load) (by decide +kernel)
    (between_byte h (by decide) (by decide)) h

theorem effect?_of_isStore {op : Opcode} (h : op.isStore) : op.effect? = some .store :=
  forall_byte (P := fun op => op.isStore → op.effect? = some .store) (by decide +kernel)
    (between_byte h (by decide) (by decide)) h

theorem effect?_of_isMethodCall {op : Opcode} (h : op.isMethodCall) : op.effect? = some .invoke :=
  forall_byte (P := fun op => op.isMethodCall → op.effect? = some .invoke) (by decide +kernel)
    (between_byte h (by decide) (by decide)) h

theorem selfContained_of_standsAlone {op : Opcode} (h : ClassFile.standsAlone op) :
    op.selfContained := by
  have hbyte : op.between 0 255 := by
    simp only [ClassFile.standsAlone, between, Bool.and_eq_true, Bool.or_eq_true,
      decide_eq_true_eq] at h ⊢
    omega
  exact forall_byte (P := fun op => ClassFile.standsAlone op → op.selfContained)
    (by decide +kernel) hbyte h

theorem selfContained_of_isJump {op : Opcode} (h : op.isJump) : op.selfContained := by
  have hbyte : op.between 0 255 := by
    simp only [isJump, between, Bool.and_eq_true, Bool.or_eq_true, decide_eq_true_eq] at h ⊢
    omega
  exact forall_byte (P := fun op => op.isJump → op.selfContained) (by decide +kernel) hbyte h

end Opcode

namespace Transfer

variable {insn : Insn}

theorem yields_nullary (h : insn.opcode.between 0x01 0x11 || insn.opcode = .jsr) :
    Yields excused (nullary insn) := by
  have hop : ∀ op, insn.opcode = op → (op.between 0x01 0x11 || op = .jsr) := fun op hop => hop ▸ h
  unfold nullary
  refine yields_ite (fun _ => yields_ofClassName fun hname => absurd hname (by decide)) fun hnull => ?_
  refine yields_ite (fun _ => yields_some trivial) fun hint => ?_
  refine yields_ite (fun _ => yields_some trivial) fun hlong => ?_
  refine yields_ite (fun _ => yields_some trivial) fun hfloat => ?_
  refine yields_ite (fun _ => yields_some trivial) fun hdouble => ?_
  refine yields_ite (fun hldc => absurd (hop _ hldc) (by decide)) fun _ => ?_
  refine yields_ite (fun _ => yields_some trivial) fun hjsr => ?_
  -- All codes in question have been dealt with.
  rcases (Bool.or_eq_true _ _).mp h with hcode | hop
  · simp only [Opcode.between, Bool.and_eq_true, Bool.or_eq_true, decide_eq_true_eq]
      at hcode hint hlong hfloat hdouble
    omega
  · exact absurd (of_decide_eq_true hop) hjsr

theorem yields_unary (h : (unaryResult? insn.opcode).isSome || isUnarySink insn.opcode) :
    Yields excused (unary insn) := by
  unfold unary
  simp only
  split
  · rename_i v hv
    exact yields_some (whole_of_unaryResult? _ v hv)
  · rename_i hnone
    rw [hnone] at h
    rw [if_pos (by simpa using h)]
    exact yields_none

theorem unary_newarray (tag : Int) : unary (.int .newarray tag) =
    match primitiveArray? tag with
    | some desc => .ok (some (.array desc))
    | none => .error (.failed (.illegalArrayTag tag)) := rfl

theorem yields_newarray (tag : Int) : Yields excused (unary (.int .newarray tag)) := by
  rw [unary_newarray]
  split
  · rename_i d hd
    exact yields_some (whole_of_primitiveArray? tag d hd)
  · trivial

theorem yields_binary {lower : Slot} (hlower : lower.Sound excused)
    (h : (binaryResult? insn.opcode).isSome || insn.opcode.code = 0x32 || isBinarySink insn.opcode) :
    Yields excused (binary insn lower) := by
  unfold binary
  simp only
  split
  · rename_i v hv
    exact yields_some (whole_of_binaryResult? _ v hv)
  · rename_i hnone
    rw [hnone] at h
    split
    · exact yields_ofComponent hlower
    · rename_i hload
      rw [if_pos (by simpa [hload] using h)]
      exact yields_none

end Transfer

/-! ## Runs of instructions -/

namespace Exec

open Transfer

variable {insn : Insn}

/-- **Runs that keep frames sound**, with faults for which there is an excuse. -/
abbrev Safe (excused : Prop) {α : Type} (Q : α → Prop) (x : Exec α) : Prop :=
  Keeps (Slot.Sound excused) (EndFault excused) Q x

theorem safe_ofExcept {x : Except (Halt Cause) Slot} (h : Yields excused x) :
    Safe excused (fun v => v.isSome → v.Sound excused) (ofExcept x) := by
  cases x with
  | ok v => exact .pure h
  | error halt =>
    cases halt with
    | failed cause => exact .fail cause
    | fault f => exact .fault h

/-- A slot that is made is pushed if there is a value in it. -/
theorem safe_ofExcept_push {x : Except (Halt Cause) Slot} (h : Yields excused x) :
    Safe excused (fun _ => True) (do let v ← ofExcept x; push insn v) :=
  (safe_ofExcept h).bind fun _ hv => keeps_push hv

theorem safe_unary (h : Yields excused (Transfer.unary insn)) :
    Safe excused (fun v => v.isSome → v.Sound excused) (unary insn) :=
  keeps_pop.bind fun _ _ => safe_ofExcept h

theorem safe_unary_push (h : Yields excused (Transfer.unary insn)) :
    Safe excused (fun _ => True) (do let v ← unary insn; push insn v) :=
  (safe_unary h).bind fun _ hv => keeps_push hv

theorem safe_binary (h : ∀ lower, lower.Sound excused → Yields excused (Transfer.binary insn lower)) :
    Safe excused (fun v => v.isSome → v.Sound excused) (binary insn) :=
  keeps_pop.bind fun _ _ => keeps_pop.bind fun lower hlower => safe_ofExcept (h lower hlower)

theorem safe_returnVoid :
    Safe excused (fun _ => True) (perform insn .returnVoid) := by
  intro f hf
  show Satisfies _ _ _ (EStateM.run (if f.result.isSome then fail .incompatibleReturn else pure ()) f)
  split
  · trivial
  · exact ⟨trivial, hf⟩

/-- **A code that decides alone runs safely**, whatever the node. -/
theorem safe_of_selfContained (h : insn.opcode.selfContained) :
    Safe excused (fun _ => True) (execute insn) := by
  have hS : ∀ v, Slot.Sound excused v → v.isSome := fun _ => Slot.Sound.isSome
  unfold Opcode.selfContained at h
  unfold execute
  cases heffect : insn.opcode.effect? with
  | none =>
    rw [heffect] at h
    exact nomatch h
  | some effect =>
    rw [heffect] at h
    cases effect with
    | idle => exact .pure trivial
    | produce => exact safe_ofExcept_push (yields_nullary h)
    | combine => exact (safe_binary fun _ hl => yields_binary hl h).bind fun _ hv => keeps_push hv
    | storeElement => exact keeps_popMany 3
    | rearrange op => exact keeps_stackOp hS op
    | convert => exact safe_unary_push (yields_unary h)
    | consume => exact (safe_unary (yields_unary h)).bind fun _ _ => .pure trivial
    | consumeTwo => exact (safe_binary fun _ hl => yields_binary hl h).bind fun _ _ => .pure trivial
    | returnValue => exact (safe_unary (yields_unary h)).bind fun _ _ => .pure trivial
    | returnVoid => exact safe_returnVoid
    | load | store | increment | invoke | multiArray => exact nomatch h

theorem safe_load (op : Opcode) (i : Int) :
    Safe excused (fun _ => True) (perform (.var op i) .load) :=
  (keeps_getLocal i).bind fun _ hv => keeps_push fun _ => hv

theorem safe_invoke {desc : String} (hinvoked : insn.invoked? = some desc) :
    Safe excused (fun _ => True) (invoke insn) := by
  have hdesc : invokedDescriptor insn = pure desc := by
    cases insn <;> cases hinvoked <;> rfl
  have hvariadic : Transfer.variadic insn = ofInvocation desc := by
    cases insn <;> cases hinvoked <;> rfl
  unfold invoke
  rw [hdesc, pure_bind]
  cases hparse : Desc.parseMethod desc with
  | error e => exact .fail _
  | ok t =>
    obtain ⟨d, rfl, hmethod⟩ := Desc.parse_of_parseMethod hparse
    obtain ⟨arguments, harguments, -⟩ := Ty.exists_arguments hmethod
    obtain ⟨result, hresult, -⟩ := Ty.exists_result hmethod
    simp only [harguments, hresult, hvariadic]
    refine (Keeps.pure (Q := fun _ => True) trivial).bind fun arguments _ => ?_
    refine (keeps_popMany _).bind fun _ _ => ?_
    refine (safe_ofExcept (yields_ofInvocation desc)).bind fun v hv => ?_
    refine (Keeps.pure (Q := fun _ => True) trivial).bind fun result _ => ?_
    exact .ite (fun _ => keeps_push hv) fun _ => .pure trivial

theorem safe_multiArray {desc : String} {dimensions : Int} (h : 0 ≤ dimensions) :
    Safe excused (fun _ => True) (perform (.multiArray desc dimensions) .multiArray) := by
  unfold perform
  simp only
  rw [if_neg (by omega)]
  exact (keeps_popMany _).bind fun _ _ => safe_ofExcept_push (yields_ofDescriptor desc)

/-- **An instruction that fits its code runs safely**, if there is an excuse for the class that it
names. One case for each kind of node. -/
theorem safe_execute (hn : insn.Normal)
    (hname : ∀ name, insn.namedClass? = some name → Bracketed name → excused) :
    Safe excused (fun _ => True) (execute insn) := by
  cases insn with
  -- Nodes without operands for a transfer function: the code decides.
  | plain op => exact safe_of_selfContained (Opcode.selfContained_of_standsAlone hn)
  | jump op target => exact safe_of_selfContained (Opcode.selfContained_of_isJump hn)
  | label l => exact .pure trivial
  | tableSwitch low high dflt labels => exact safe_of_selfContained rfl
  | lookupSwitch dflt keys labels => exact safe_of_selfContained rfl
  -- Nodes of several codes, of which some look at the operands.
  | int op operand =>
    rcases hn with rfl | rfl | rfl
    · exact safe_of_selfContained rfl
    · exact safe_of_selfContained rfl
    · exact safe_unary_push (yields_newarray operand)
  | var op i =>
    simp only [Insn.Normal, Bool.or_eq_true, decide_eq_true_eq] at hn
    rcases hn with (hload | hstore) | rfl
    · unfold execute
      rw [show (Insn.var op i).opcode.effect? = some .load from Opcode.effect?_of_isLoad hload]
      exact safe_load op i
    · unfold execute
      rw [show (Insn.var op i).opcode.effect? = some .store from Opcode.effect?_of_isStore hstore]
      exact keeps_store (fun _ => Slot.Sound.isSome) Slot.sound_uninit i
    · exact safe_of_selfContained rfl
  | type op name =>
    rcases hn with rfl | rfl | rfl | rfl
    · exact safe_ofExcept_push (yields_ofClassName (hname name rfl))
    · exact safe_unary_push (yields_ofDescriptor (arrayOf name))
    · exact safe_unary_push (yields_ofClassName (hname name rfl))
    · exact safe_of_selfContained rfl
  | field op owner name desc =>
    obtain ⟨code⟩ := op
    simp only [Insn.Normal, Opcode.isFieldAccess, Opcode.between, Bool.and_eq_true,
      decide_eq_true_eq] at hn
    obtain rfl | rfl | rfl | rfl : code = 0xb2 ∨ code = 0xb3 ∨ code = 0xb4 ∨ code = 0xb5 := by omega
    · exact safe_ofExcept_push (yields_ofDescriptor desc)
    · exact safe_of_selfContained rfl
    · exact safe_unary_push (yields_ofDescriptor desc)
    · exact safe_of_selfContained rfl
  | method op owner name desc itf =>
    unfold execute
    rw [show (Insn.method op owner name desc itf).opcode.effect? = some .invoke from
      Opcode.effect?_of_isMethodCall hn]
    exact safe_invoke rfl
  -- Nodes of one code.
  | dynamic name desc bootstrap args => exact safe_invoke rfl
  | ldc constant => exact safe_ofExcept_push (yields_ofConstant constant)
  | iinc i amount =>
    refine (keeps_getLocal i).bind fun _ _ => ?_
    exact keeps_setLocal i ⟨.int, rfl, Or.inl trivial⟩
  | multiArray desc dimensions => exact safe_multiArray hn

end Exec

/-- **An instruction that fits its code keeps frames sound.** -/
theorem Frame.each_of_execute {insn : Insn} {f f' : Frame} (hn : insn.Normal)
    (hname : ∀ name, insn.namedClass? = some name → Bracketed name → excused)
    (hf : f.Each (Slot.Sound excused)) (h : f.execute insn = .ok f') :
    f'.Each (Slot.Sound excused) := by
  have hsafe := Exec.safe_execute hn hname f hf
  rw [Frame.execute_eq_ok_iff_run.mp h] at hsafe
  exact hsafe.2

/-- **An instruction that fits its code faults only with an excuse.** -/
theorem Frame.endFault_of_execute {insn : Insn} {f : Frame} {fault : Fault} (hn : insn.Normal)
    (hname : ∀ name, insn.namedClass? = some name → Bracketed name → excused)
    (hf : f.Each (Slot.Sound excused)) (h : f.execute insn = .error (.fault fault)) :
    EndFault excused fault := by
  have hsafe := Exec.safe_execute hn hname f hf
  obtain ⟨f', hrun⟩ := Frame.execute_eq_error_iff_run.mp h
  rw [hrun] at hsafe
  exact hsafe

end StackMap
