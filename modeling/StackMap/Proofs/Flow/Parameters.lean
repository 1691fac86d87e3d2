import StackMap.Proofs.Flow.Entry

/-!
# `Proofs.Flow.Parameters`: where a method finds its parameters

The local variables of the first frame are filled from the front: the receiver, the parameters in turn, and
the rest. A `long` or `double` takes two variables, so the position of a parameter is what the receiver
and the parameters before it take together. The frame exists just if this is enough for all of them.

## Contents

* `Method.localsFor`: the local variables that the receiver and some parameters take.
* `exists_flatten_split`: the slots of one parameter among those of all.
* `LaidOut`, `entryFrame_laidOut`: what stands in each of its variables.
* `entryFrame_negative_stack`: a size below zero.
-/

namespace StackMap

/-- **The local variables that the receiver and parameters of the given types take together.** For the
parameters in front of another one this is the position of that one. -/
def Method.localsFor (m : Method) (parameters : List Ty) : Nat :=
  (if m.isStatic then 0 else 1) + Ty.totalSlots parameters

namespace Flow

variable {owner : String} {m : Method} {entry : Frame} {arguments : List Ty}
  {parameters : List (List Slot)}

/-! ## The slots of the parameters -/

/-- The slots of a parameter: its value, and for one that takes two variables nothing known of the
second. -/
theorem parameterSlots_eq_ok {t : Ty} {slots : List Slot} (h : parameterSlots t = .ok slots) :
    ∃ v, Transfer.valueOf t = .ok v ∧ slots = v :: List.replicate (t.slots - 1) (some .uninit) := by
  obtain ⟨v, hv, h⟩ := bind_eq_ok_iff.mp h
  cases h
  refine ⟨v, hv, ?_⟩
  cases t <;> rfl

theorem length_parameterSlots {t : Ty} {slots : List Slot} (h : parameterSlots t = .ok slots)
    (ht : 0 < t.slots) : slots.length = t.slots := by
  obtain ⟨v, -, rfl⟩ := parameterSlots_eq_ok h
  rw [List.length_cons, List.length_replicate, Nat.sub_add_cancel ht]

/-- The parameters take as many variables as their types say. -/
theorem length_flatten_parameters (h : arguments.mapM parameterSlots = .ok parameters)
    (hpos : ∀ a ∈ arguments, 0 < a.slots) : parameters.flatten.length = Ty.totalSlots arguments := by
  induction arguments generalizing parameters with
  | nil =>
    cases h
    rfl
  | cons a rest ih =>
    obtain ⟨ha, hrest⟩ := List.forall_mem_cons.mp hpos
    obtain ⟨slots, more, hslots, hmore, rfl⟩ := mapM_cons_eq_ok_iff.mp h
    rw [List.flatten_cons, List.length_append, length_parameterSlots hslots ha, ih hmore hrest]
    rfl

/-- **The slots of one parameter among those of all**: in front of them are as many as the parameters
before it take. -/
theorem exists_flatten_split (h : arguments.mapM parameterSlots = .ok parameters)
    (hpos : ∀ a ∈ arguments, 0 < a.slots) {k : Nat} {a : Ty} (ha : arguments[k]? = some a) :
    ∃ before slots after, parameterSlots a = .ok slots ∧
      parameters.flatten = before ++ (slots ++ after) ∧
      before.length = Ty.totalSlots (arguments.take k) := by
  induction arguments generalizing parameters k with
  | nil => exact nomatch ha
  | cons first rest ih =>
    obtain ⟨hfirst, hrest⟩ := List.forall_mem_cons.mp hpos
    obtain ⟨slots, more, hslots, hmore, rfl⟩ := mapM_cons_eq_ok_iff.mp h
    cases k with
    | zero =>
      cases ha
      exact ⟨[], slots, more.flatten, hslots, rfl, rfl⟩
    | succ k =>
      obtain ⟨before, slots', after, hslots', hsplit, hlength⟩ := ih hmore hrest ha
      refine ⟨slots ++ before, slots', after, hslots', ?_, ?_⟩
      · rw [List.flatten_cons, hsplit, List.append_assoc]
      · rw [List.length_append, length_parameterSlots hslots hfirst, hlength]
        rfl

theorem length_receiverSlots (owner : String) (m : Method) :
    (receiverSlots owner m).length = if m.isStatic then 0 else 1 := by
  unfold receiverSlots
  split <;> rfl

/-- The receiver and the parameters take as many variables as the descriptor says. -/
theorem length_used (h : arguments.mapM parameterSlots = .ok parameters)
    (hpos : ∀ a ∈ arguments, 0 < a.slots) (owner : String) (m : Method) :
    (receiverSlots owner m ++ parameters.flatten).length = m.localsFor arguments := by
  rw [List.length_append, length_receiverSlots, length_flatten_parameters h hpos]
  rfl

/-! ## The first frame -/

/-- **What stands in the first frame**, for parameters of the given types: an empty stack, and in the
local variables the receiver, the value of each parameter behind those of the earlier ones, and nothing
known of second halves and of the rest. -/
structure LaidOut (owner : String) (m : Method) (arguments : List Ty) (entry : Frame) : Prop where
  stack : entry.stack = []
  size : (entry.locals.size : Int) = m.maxLocals
  receiver : ¬ m.isStatic → entry.locals[0]? = some (some (Value.ofClassName owner))
  parameter : ∀ k a, arguments[k]? = some a →
    ∃ v, Transfer.valueOf a = .ok v ∧ entry.locals[m.localsFor (arguments.take k)]? = some v
  second : ∀ k a, arguments[k]? = some a → a = .long ∨ a = .double →
    entry.locals[m.localsFor (arguments.take k) + 1]? = some (some .uninit)
  rest : ∀ i : Nat, m.localsFor arguments ≤ i → (i : Int) < m.maxLocals →
    entry.locals[i]? = some (some .uninit)

/-- The slots of a parameter are at its position. -/
theorem getElem?_parameter (h : arguments.mapM parameterSlots = .ok parameters)
    (hpos : ∀ a ∈ arguments, 0 < a.slots) {k : Nat} {a : Ty} (ha : arguments[k]? = some a)
    (owner : String) (m : Method) (free : List Slot) :
    ∃ slots, parameterSlots a = .ok slots ∧ ∀ j < a.slots,
      (receiverSlots owner m ++ parameters.flatten ++ free)[m.localsFor (arguments.take k) + j]? =
        slots[j]? := by
  obtain ⟨before, slots, after, hslots, hsplit, hbefore⟩ := exists_flatten_split h hpos ha
  refine ⟨slots, hslots, fun j hj => ?_⟩
  have hlength : slots.length = a.slots :=
    length_parameterSlots hslots (hpos a (List.mem_of_getElem? ha))
  have hfront : (receiverSlots owner m ++ before).length = m.localsFor (arguments.take k) := by
    rw [List.length_append, length_receiverSlots, hbefore]
    rfl
  have hlocals : receiverSlots owner m ++ parameters.flatten ++ free =
      (receiverSlots owner m ++ before) ++ (slots ++ (after ++ free)) := by
    rw [hsplit]
    simp only [List.append_assoc]
  rw [hlocals, ← hfront, List.getElem?_append_right (Nat.le_add_right _ j), Nat.add_sub_cancel_left,
    List.getElem?_append_left (hlength ▸ hj)]

/-- **The receiver, the parameters and variables of which nothing is known**, one behind the other, are the
layout. -/
theorem laidOut_of_append (hparameters : arguments.mapM parameterSlots = .ok parameters)
    (hpos : ∀ a ∈ arguments, 0 < a.slots) {free : Nat}
    (hsize : (m.localsFor arguments : Int) + free = m.maxLocals) (maxStack : Nat) (result : Slot) :
    LaidOut owner m arguments ⟨(receiverSlots owner m ++ parameters.flatten ++
      List.replicate free (some Value.uninit)).toArray, [], maxStack, result⟩ := by
  have hused := length_used hparameters hpos owner m
  refine ⟨rfl, ?_, fun hstatic => ?_, fun k a ha => ?_, fun k a ha hwide => ?_, fun i hi hlast => ?_⟩
  · rw [List.size_toArray, List.length_append, List.length_replicate, hused, Int.natCast_add, hsize]
  · have hreceiver : receiverSlots owner m = [some (Value.ofClassName owner)] := if_neg hstatic
    rw [hreceiver]
    rfl
  · obtain ⟨slots, hslots, hget⟩ := getElem?_parameter hparameters hpos ha owner m
      (List.replicate free (some Value.uninit))
    obtain ⟨v, hv, rfl⟩ := parameterSlots_eq_ok hslots
    have hfirst := hget 0 (hpos a (List.mem_of_getElem? ha))
    exact ⟨v, hv, List.getElem?_toArray.trans hfirst⟩
  · obtain ⟨slots, hslots, hget⟩ := getElem?_parameter hparameters hpos ha owner m
      (List.replicate free (some Value.uninit))
    obtain ⟨v, -, rfl⟩ := parameterSlots_eq_ok hslots
    have htwo : a.slots = 2 := by rcases hwide with rfl | rfl <;> rfl
    have hsecond := hget 1 (by omega)
    rw [htwo] at hsecond
    exact List.getElem?_toArray.trans hsecond
  · -- Behind the receiver and the parameters there is nothing else.
    have hbehind : (receiverSlots owner m ++ parameters.flatten).length ≤ i := hused ▸ hi
    rw [List.getElem?_toArray, List.getElem?_append_right hbehind, List.getElem?_replicate,
      if_pos (by omega)]

/-- **The layout of the first frame.** A method whose descriptor is accepted and whose numbers are sizes
has a first frame just if the receiver and the parameters fit in its local variables. If they do not, then
it is refused for this reason, and if they do, then each of them is at its position. -/
theorem entryFrame_laidOut {d : String} (hparse : Desc.parse m.desc = .ok (.method d))
    (hlocals : 0 ≤ m.maxLocals) (hstack : 0 ≤ m.maxStack) (owner : String) :
    ∃ arguments, (Ty.method d).arguments = .ok arguments ∧
      ((∃ entry, entryFrame owner m = .ok entry) ↔ (m.localsFor arguments : Int) ≤ m.maxLocals) ∧
      (m.maxLocals < (m.localsFor arguments : Int) →
        ∃ e : AnalysisError, entryFrame owner m = .error (.failed e) ∧
          e = .parameters m.name m.desc m.maxLocals ∧ e.kind = .localOutOfRange) ∧
      ∀ entry, entryFrame owner m = .ok entry → LaidOut owner m arguments entry := by
  have htype : m.type = .ok (.method d) := Desc.parseMethod_of_parse hparse
  have houtcome := entryOutcome owner m
  generalize entryFrame owner m = outcome at houtcome ⊢
  cases houtcome with
  | descriptor htype' => cases htype.symm.trans htype'
  | negative _ hnegative => omega
  | short htype' _ _ harguments hparameters hshort =>
    cases htype.symm.trans htype'
    rw [length_used hparameters (Ty.slots_pos_of_mem_arguments harguments)] at hshort
    refine ⟨_, harguments, ⟨?_, fun hfits => ?_⟩, fun _ => ⟨_, rfl, rfl, rfl⟩, nofun⟩
    · rintro ⟨entry, hok⟩
      exact nomatch hok
    · omega
  | frame htype' _ _ harguments hparameters _ _ hfits =>
    cases htype.symm.trans htype'
    have hpos := Ty.slots_pos_of_mem_arguments harguments
    have hused := length_used hparameters hpos owner m
    refine ⟨_, harguments, ⟨fun _ => by omega, fun _ => ⟨_, rfl⟩⟩, fun hshort => by omega, ?_⟩
    intro entry hok
    cases hok
    exact laidOut_of_append hparameters hpos (by omega) _ _

end Flow

/-! ## A wide parameter at the end

With the receiver the parameters take five local variables, the last of which is the second half of the
`long`. -/

namespace WideLast

def method (maxLocals : Int) : Method where
  access := 0
  name := "m"
  desc := "(ILA;J)V"
  maxStack := 0
  maxLocals
  insns := #[.plain ⟨0xb1⟩]
  tryCatch := []

theorem parse_eq : Desc.parse "(ILA;J)V" = .ok (.method "(ILA;J)V") :=
  eq_ok_of_toOption (by decide +kernel)

theorem arguments_eq : (Ty.method "(ILA;J)V").arguments = .ok [.int, .object "LA;", .long] :=
  eq_ok_of_toOption (by decide +kernel)

end WideLast

namespace Flow

/-- Five local variables are enough, and four are one too few. -/
theorem entryFrame_laidOut_wideLast :
    (∃ entry, entryFrame "C" (WideLast.method 5) = .ok entry ∧
      LaidOut "C" (WideLast.method 5) [.int, .object "LA;", .long] entry) ∧
      ∃ e, entryFrame "C" (WideLast.method 4) = .error (.failed e) ∧ e.kind = .localOutOfRange := by
  constructor
  · obtain ⟨arguments, harguments, hexists, -, hlaid⟩ :=
      entryFrame_laidOut (m := WideLast.method 5) WideLast.parse_eq (by decide) (by decide) "C"
    cases WideLast.arguments_eq.symm.trans harguments
    obtain ⟨entry, hentry⟩ := hexists.mpr (by decide)
    exact ⟨entry, hentry, hlaid entry hentry⟩
  · obtain ⟨arguments, harguments, -, hrefused, -⟩ :=
      entryFrame_laidOut (m := WideLast.method 4) WideLast.parse_eq (by decide) (by decide) "C"
    cases WideLast.arguments_eq.symm.trans harguments
    obtain ⟨e, he, -, hkind⟩ := hrefused (by decide)
    exact ⟨e, he, hkind⟩

end Flow

/-! ## A bound below zero

A number of entries below zero is no size of a stack: the frame cannot be made, although there are no
parameters that would have to fit. -/

namespace NegativeStack

def method : Method where
  access := 8
  name := "m"
  desc := "()V"
  maxStack := -1
  maxLocals := 0
  insns := #[.plain ⟨0xb1⟩]
  tryCatch := []

theorem parse_desc : Desc.parse method.desc = .ok (.method "()V") := eq_ok_of_toOption (by decide +kernel)

theorem entryFrame_eq : Flow.entryFrame "C" method = .error (.fault .negativeSize) := by
  have htype : method.type = .ok (.method "()V") := Desc.parseMethod_of_parse parse_desc
  unfold Flow.entryFrame
  rw [mapError_bind_of_ok htype]
  rfl

theorem analyze_eq : analyze "C" method = .error (.fault .negativeSize) := by
  have hcode : method.hasCode := rfl
  unfold analyze
  rw [hcode, entryFrame_eq]
  rfl

end NegativeStack

namespace Flow

/-- **Without a bound that is a size it fails**: a method without parameters and without a first frame. -/
theorem entryFrame_negative_stack :
    Desc.parse NegativeStack.method.desc = .ok (.method "()V") ∧ 0 ≤ NegativeStack.method.maxLocals ∧
      (Ty.method "()V").arguments = .ok [] ∧
      entryFrame "C" NegativeStack.method = .error (.fault .negativeSize) ∧
      ¬ ((∃ entry, entryFrame "C" NegativeStack.method = .ok entry) ↔
        (NegativeStack.method.localsFor [] : Int) ≤ NegativeStack.method.maxLocals) := by
  have harguments : (Ty.method "()V").arguments = .ok [] := eq_ok_of_toOption (by decide +kernel)
  refine ⟨NegativeStack.parse_desc, by decide, harguments, NegativeStack.entryFrame_eq, fun hiff => ?_⟩
  obtain ⟨entry, hentry⟩ := hiff.mpr (by decide)
  exact nomatch NegativeStack.entryFrame_eq.symm.trans hentry

end Flow

end StackMap
