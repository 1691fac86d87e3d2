import StackMap.Proofs.Flow.Parameters
import StackMap.Proofs.Flow.Solution
import StackMap.Proofs.Frame.Range
import StackMap.Proofs.FrontEnd

/-!
# `Proofs.Listing.Locals`: whether a method has enough local variables

A listing need not say how many local variables its method has. They are counted then: there are enough for the
receiver and the parameters, and for the variables that the instructions name, where an operation code for
`long` or `double` takes two. The analysis goes by the values instead. A load copies what it finds, so it needs no
variable but its own. A store takes two variables if the value on the stack does, whatever its operation code
is. So `istore`, `fstore` and `astore` may lack a variable, for a `long` or `double`, and nothing else may.

## Contents

* `MethodListing.localsFor_le`, `MethodListing.localsOf_le`: the number that is counted is large enough.
* `Holds.size_locals`: all frames of a method have that many local variables.
* `Overruns`: a store of a `long` or `double` with the operation code for another type.
* `locals_suffice`: nothing else lacks a local variable.
-/

namespace StackMap

/-! ## The number that is counted -/

namespace MethodListing

variable {l : MethodListing} {m : Method} {insns : List Insn} {n : Int}

/-- The greatest of some numbers is at least each of them. By induction on the instructions, for all numbers to
start with. -/
theorem le_foldl_max (insns : List Insn) (n : Int) :
    n ≤ insns.foldl (fun n insn => max n (localsOf insn)) n ∧
      ∀ insn ∈ insns, localsOf insn ≤ insns.foldl (fun n insn => max n (localsOf insn)) n := by
  induction insns generalizing n with
  | nil => exact ⟨Int.le_refl n, fun _ h => absurd h List.not_mem_nil⟩
  | cons first rest ih =>
    obtain ⟨hstart, hrest⟩ := ih (max n (localsOf first))
    rw [List.foldl_cons]
    refine ⟨Int.le_trans (Int.le_max_left ..) hstart, ?_⟩
    intro insn hinsn
    rcases List.mem_cons.mp hinsn with rfl | hinsn
    · exact Int.le_trans (Int.le_max_right ..) hstart
    · exact hrest insn hinsn

/-- **What a listing without a number becomes**: a method with the number that is counted. -/
theorem maxLocals_of_method (h : l.method = .ok m) (hlocals : l.maxLocals = none) :
    ∃ t arguments, m.type = .ok t ∧ t.arguments = .ok arguments ∧
      m.maxLocals = neededLocals m.isStatic arguments m.insns.toList := by
  obtain ⟨access, -, h⟩ := bind_eq_ok_iff.mp h
  obtain ⟨t, ht, h⟩ := bind_eq_ok_iff.mp h
  obtain ⟨insns, -, h⟩ := bind_eq_ok_iff.mp h
  obtain ⟨tryCatch, -, h⟩ := bind_eq_ok_iff.mp h
  rw [mapError_eq_ok_iff] at ht
  obtain ⟨d, rfl, hparse⟩ := Desc.parse_of_parseMethod ht
  obtain ⟨arguments, harguments, -⟩ := Ty.exists_arguments hparse
  have hstatic : ((access : Int) / 8 % 2 == 1) = (access / 8 % 2 == 1) := by
    rw [Bool.eq_iff_iff, beq_iff_eq, beq_iff_eq]
    omega
  rw [harguments, hlocals] at h
  cases h
  refine ⟨_, arguments, ht, harguments, ?_⟩
  unfold Method.isStatic
  rw [hstatic]
  rfl

/-- **There are enough local variables for the parameters.** -/
theorem localsFor_le (h : l.method = .ok m) (hlocals : l.maxLocals = none) {t : Ty} {arguments : List Ty}
    (ht : m.type = .ok t) (harguments : t.arguments = .ok arguments) :
    (m.localsFor arguments : Int) ≤ m.maxLocals := by
  obtain ⟨t', arguments', ht', harguments', hcount⟩ := maxLocals_of_method h hlocals
  obtain rfl : t' = t := Except.ok.inj (ht'.symm.trans ht)
  obtain rfl : arguments' = arguments := Except.ok.inj (harguments'.symm.trans harguments)
  have hle := (le_foldl_max m.insns.toList (Ty.totalSlots arguments' + (if m.isStatic then 0 else 1))).1
  rw [hcount]
  refine Int.le_trans (Int.le_of_eq ?_) hle
  unfold Method.localsFor
  split
  · omega
  · omega

/-- **There are enough for the variables that an instruction names.** -/
theorem localsOf_le (h : l.method = .ok m) (hlocals : l.maxLocals = none) {insn : Insn}
    (hinsn : insn ∈ m.insns) : localsOf insn ≤ m.maxLocals := by
  obtain ⟨t, arguments, -, -, hcount⟩ := maxLocals_of_method h hlocals
  rw [hcount]
  exact (le_foldl_max m.insns.toList _).2 insn (Array.mem_toList_iff.mpr hinsn)

/-- The parameters of a method whose local variables are counted fit. -/
theorem not_lacksLocals (h : l.method = .ok m) (hlocals : l.maxLocals = none) (owner : String) :
    ¬ Flow.LacksLocals owner m := by
  rintro ⟨t, arguments, parameters, ht, harguments, hparameters, hshort⟩
  have hpos := Ty.slots_pos_of_mem_arguments harguments
  rw [Flow.length_used hparameters hpos owner m] at hshort
  have hle := localsFor_le h hlocals ht harguments
  omega

/-- The instructions that name a local variable are well-formed. -/
theorem operandsFit_of_method (h : l.method = .ok m) {insn : Insn} (hinsn : insn ∈ m.insns)
    (hkind : insn.kind ≠ .label) : insn.OperandsFit := by
  have hassembled := (Assembly.assemble_outcome (method_outcome h).1).1
  exact (hassembled.wellFormed (Array.mem_toList_iff.mpr hinsn) hkind).operands

end MethodListing

/-! ## The frames of a method -/

namespace Flow

variable {owner : String} {l : MethodListing} {m : Method} {g : Graph} {entry before : Frame} {i : Nat}
  {insn : Insn} {cause : Cause}

/-- **All frames that the analysis holds are of one method.** -/
theorem Holds.peer (hcode : g.method.hasCode) (h : Holds g entry i before) : entry.Peer before := by
  obtain ⟨visits, c, hsteps, hf⟩ := h
  -- Neither a step nor a merge changes how many local variables a frame has.
  have hall := hsteps.all (P := fun _ f => entry.Peer f)
    (fun _ _ _ _ _ _ hf hp => hf.trans (peer_of_outgoing hp))
    (fun _ _ _ _ hold _ hm => hold.trans (Frame.peer_of_merge hm)) (all_start hcode (.refl entry))
  exact hall.frames i before hf

/-- All frames that the analysis holds have as many local variables as the method. -/
theorem Holds.size_locals (hg : Graph.ofMethod m = .ok g) (hcode : m.hasCode)
    (hentry : entryFrame owner m = .ok entry) (h : Holds g entry i before) :
    before.locals.size = m.maxLocals.toNat := by
  have hpeer := h.peer (Graph.method_of_ofMethod hg ▸ hcode)
  rw [← hpeer.locals, size_entryFrame hentry]

/-- **A store of a `long` or `double` with the operation code for another type**, in front of which the analysis
holds a frame with such a value on its stack, and where the variable for its second half does not exist. -/
structure Overruns (g : Graph) (entry : Frame) (i : Nat) (op : Opcode) (k : Int) (before : Frame) : Prop where
  insn : g.method.insns[i]? = some (.var op k)
  /-- The operation code is that of `istore`, `fstore` or `astore`. -/
  narrow : op.code = 0x36 ∨ op.code = 0x38 ∨ op.code = 0x3a
  held : Holds g entry i before
  wide : ∃ v rest, before.stack = some v :: rest ∧ (v = .long ∨ v = .double)
  own : before.hasLocal k
  next : ¬ before.hasLocal (k + 1)

/-- **An instruction whose variables exist blames a local variable only as a store** of one variable that finds
a value which takes two. -/
theorem narrow_of_execute (hfit : insn.kind ≠ .label → insn.OperandsFit)
    (hlocals : MethodListing.localsOf insn ≤ before.locals.size)
    (h : before.execute insn = .error (.failed cause)) (hkind : cause.kind = .localOutOfRange) :
    ∃ op k, insn = .var op k ∧ (op.code = 0x36 ∨ op.code = 0x38 ∨ op.code = 0x3a) ∧
      (∃ v rest, before.stack = some v :: rest ∧ (v = .long ∨ v = .double)) ∧
      before.hasLocal k ∧ ¬ before.hasLocal (k + 1) ∧
      cause = .localOutOfRange (k + 1) before.locals.size := by
  obtain ⟨j, htouched, hmissing⟩ := Frame.missing_of_execute h hkind
  cases insn with
  | var op k =>
    have hlabel : (Insn.var op k).kind ≠ .label := by
      intro h
      cases h
    have hpos : 0 ≤ k := (hfit hlabel).1
    have hcount : (if op.code ∈ [0x16, 0x18, 0x37, 0x39] then k + 2 else k + 1) ≤
        (before.locals.size : Int) := hlocals
    have hown : before.hasLocal k := by
      apply Frame.hasLocal_of_lt hpos
      split at hcount
      · omega
      · omega
    by_cases hstore : op.isStore
    · obtain ⟨v, rest, hstack, hwide, hnext, hcause⟩ := Frame.wide_of_execute hstore hown h hkind
      refine ⟨op, k, rfl, ?_, ?_, hown, hnext, hcause⟩
      · -- The stores for `long` and `double` are counted with two variables.
        have hlast : ¬ op.code ∈ [0x16, 0x18, 0x37, 0x39] := by
          intro hcode
          rw [if_pos hcode] at hcount
          exact hnext (Frame.hasLocal_of_lt (by omega) (by omega))
        simp only [Opcode.isStore, Opcode.between, Bool.and_eq_true, decide_eq_true_eq] at hstore
        simp only [List.mem_cons, List.not_mem_nil, or_false, not_or] at hlast
        omega
      · rcases Slot.eq_of_wide hwide with rfl | rfl
        · exact ⟨.long, rest, hstack, .inl rfl⟩
        · exact ⟨.double, rest, hstack, .inr rfl⟩
    · -- What is no store needs its own variable only.
      rcases htouched with hreads | ⟨v, hwrites⟩
      · cases hreads with
        | own => exact absurd hown hmissing
        | previous hop _ => exact absurd hop hstore
      · cases hwrites with
        | store hop => exact absurd hop hstore
        | next hop => exact absurd hop hstore
        | previous hop => exact absurd hop hstore
  | iinc k amount =>
    have hlabel : (Insn.iinc k amount).kind ≠ .label := by
      intro h
      cases h
    have hpos : 0 ≤ k := (hfit hlabel).1
    have hcount : k + 1 ≤ (before.locals.size : Int) := hlocals
    have hown : before.hasLocal k := Frame.hasLocal_of_lt hpos (by omega)
    rcases htouched with hreads | ⟨v, hwrites⟩
    · cases hreads with
      | increment => exact absurd hown hmissing
    · cases hwrites with
      | increment => exact absurd hown hmissing
  | _ =>
    -- No other instruction names a local variable.
    rcases htouched with hreads | ⟨v, hwrites⟩
    · cases hreads
    · cases hwrites

/-- **The local variables that are counted suffice.** If a listing does not say how many local variables its
method has, then the analysis of the method, for any owner, lacks one only at a reachable `istore`, `fstore` or
`astore` that pops a `long` or `double`, and it is the variable behind that of the store. -/
theorem locals_suffice (hm : l.method = .ok m) (hlocals : l.maxLocals = none) {e : AnalysisError}
    (h : analyze owner m = .error (.failed e)) (hkind : e.kind = .localOutOfRange) :
    ∃ g entry i op k before, Graph.ofMethod m = .ok g ∧ entryFrame owner m = .ok entry ∧ m.Reaches i ∧
      Overruns g entry i op k before ∧
      e = .insn ⟨.var op k, some i, .localOutOfRange (k + 1) before.locals.size⟩ := by
  have hbind := h
  unfold analyze at hbind
  split at hbind
  · exact nomatch hbind
  rename_i hcode
  have hcode : m.hasCode := by simpa using hcode
  rcases bind_eq_error_iff.mp hbind with hgraph | ⟨g, hg, hbind⟩
  · obtain ⟨label, -, he⟩ := mapError_eq_error_iff.mp hgraph
    cases he
    exact nomatch hkind
  rcases bind_eq_error_iff.mp hbind with hfirst | ⟨entry, hentry, -⟩
  · rcases entryFrame_failed hfirst with ⟨d, -, rfl⟩ | ⟨-, hlacks⟩
    · exact nomatch hkind
    · -- The entry frame lacks none: the parameters were counted.
      exact absurd hlacks (MethodListing.not_lacksLocals hm hlocals owner)
  rw [mapError_eq_ok_iff] at hg
  have hmethod := Graph.method_of_ofMethod hg
  obtain ⟨visits, c, hsteps, hends⟩ := exists_steps_analyze hcode hg hentry
  rw [h] at hends
  rw [← hmethod] at hsteps
  obtain ⟨i, insn, cause, rfl, hi, hreach, hblame⟩ := hends.blame hg hcode hsteps
  cases hblame with
  | @execution before _ hheld hexec =>
    have hinsn : insn ∈ m.insns := Array.mem_of_getElem? hi
    have hcount : MethodListing.localsOf insn ≤ before.locals.size := by
      rw [hheld.size_locals hg hcode hentry]
      exact Int.le_trans (MethodListing.localsOf_le hm hlocals hinsn) (Int.self_le_toNat _)
    obtain ⟨op, k, rfl, hnarrow, hwide, hown, hnext, rfl⟩ :=
      narrow_of_execute (MethodListing.operandsFit_of_method hm hinsn) hcount hexec hkind
    exact ⟨g, entry, i, op, k, before, hg, hentry, (Graph.reachable_iff_reaches hg).mp hreach,
      ⟨hmethod ▸ hi, hnarrow, hheld, hwide, hown, hnext⟩, rfl⟩
  | label _ _ => exact nomatch hkind
  | leaves _ _ => exact nomatch hkind
  | heights _ _ _ _ => exact nomatch hkind

end Flow

/-! ## A store that lacks a variable

One local variable is counted for `istore`, and the `long` that it finds takes two. -/

namespace NarrowStore

def listing : MethodListing where
  owner := "C"
  name := "f"
  desc := "()V"
  access := ["static"]
  maxStack := none
  maxLocals := none
  code := "lconst_0\nistore_0\nreturn"
  tryCatch := []

def method : Method where
  access := 8
  name := "f"
  desc := "()V"
  maxStack := 0
  maxLocals := 1
  insns := #[.plain ⟨0x09⟩, .var ⟨0x36⟩ 0, .plain ⟨0xb1⟩]
  tryCatch := []

def entry : Frame := ⟨#[some .uninit], [], 0, none⟩

def before : Frame := ⟨#[some .uninit], [some .long], 0, none⟩

def graph : Graph := ⟨method, [], []⟩

set_option maxRecDepth 4000 in
theorem method_eq : listing.method = .ok method := by with_unfolding_all rfl

theorem entryFrame_eq : Flow.entryFrame "C" method = .ok entry :=
  eq_ok_of_toOption (by decide +kernel)

theorem advance_eq :
    Plain.advance graph 1 (Plain.start method.insns.size entry) =
      some ⟨#[some entry, some before, none], [1]⟩ := by
  decide +kernel

theorem execute_eq : before.execute (.var ⟨0x36⟩ 0) = .error (.failed (.localOutOfRange 1 1)) := rfl

theorem analyze_eq :
    analyze "C" method = .error (.failed (.insn ⟨.var ⟨0x36⟩ 0, some 1, .localOutOfRange 1 1⟩)) :=
  Flow.analyze_of_advance 1 rfl rfl entryFrame_eq advance_eq rfl rfl execute_eq

end NarrowStore

namespace Flow

theorem locals_suffice_narrowStore :
    NarrowStore.listing.method = .ok NarrowStore.method ∧ NarrowStore.listing.maxLocals = none ∧
      analyze "C" NarrowStore.method =
        .error (.failed (.insn ⟨.var ⟨0x36⟩ 0, some 1, .localOutOfRange 1 1⟩)) ∧
      NarrowStore.method.Reaches 1 ∧
      ∃ g entry before, Overruns g entry 1 ⟨0x36⟩ 0 before := by
  refine ⟨NarrowStore.method_eq, rfl, NarrowStore.analyze_eq, ?_⟩
  obtain ⟨g, entry, i, op, k, before, -, -, hreach, hoverruns, he⟩ :=
    locals_suffice NarrowStore.method_eq rfl NarrowStore.analyze_eq rfl
  obtain ⟨hinsn, hi, -⟩ := InsnError.mk.inj (AnalysisError.insn.inj he)
  cases hinsn
  cases hi
  exact ⟨hreach, g, entry, before, hoverruns⟩

end Flow

end StackMap
