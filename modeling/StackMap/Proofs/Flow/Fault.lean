import StackMap.Proofs.ClassFile.Verdict
import StackMap.Proofs.Flow.Replay
import StackMap.Proofs.Flow.Solution
import StackMap.Proofs.Frame.Fault

/-!
# `Proofs.Flow.Fault`: the faults of analyses of classes that were read

The analysis of a method that was read gives frames or refuses the method, unless a class name in it
consists of `[` only. Frames stay sound on every way that they take: the first one is laid out from a
checked descriptor, instructions keep them sound, handlers get the value of a class, and a join only
loses values. Then every fault that an instruction could end with is out of reach but one.

## Contents

* `Method.classNames`: the names from which a method makes values unchecked.
* `entryFrame_outcome`, `each_entryFrame`: the first frame.
* `Config.Sound`, `Step.sound`, `Steps.sound`: what steps keep.
* `analyze_parsed`: the outcomes of the analysis.
* `ArrayOfNothing`, `parsed_class_faults`: a class with a method whose analysis faults.
-/

namespace StackMap

/-- **The names from which a method makes values unchecked**: that of its class, for the receiver, those
that its instructions name, and those of the exceptions that it catches. -/
def Method.classNames (owner : String) (m : Method) : List String :=
  (if m.isStatic then [] else [owner]) ++ m.insns.toList.filterMap Insn.namedClass? ++
    m.tryCatch.map TryCatch.type

/-- One of the names is that of an array of nothing. -/
def Method.NamesNothing (owner : String) (m : Method) : Prop :=
  ∃ name ∈ m.classNames owner, Bracketed name

namespace Flow

variable {owner : String} {m : Method} {entry : Frame} {excused : Prop}

/-! ## The first frame -/

/-- The types of values have values. -/
theorem exists_valueOf (excused : Prop) {t : Ty} (h : t.Whole) :
    ∃ v, Transfer.valueOf t = .ok v ∧ (t ≠ .void → Slot.Sound excused v) := by
  cases t with
  | method d => exact absurd h id
  | void => exact ⟨none, rfl, fun hvoid => absurd rfl hvoid⟩
  | array d => exact ⟨_, rfl, fun _ => ⟨_, rfl, Or.inl h⟩⟩
  | _ => exact ⟨_, rfl, fun _ => ⟨_, rfl, Or.inl trivial⟩⟩

theorem exists_parameterSlots (excused : Prop) {t : Ty} (h : t.Whole) :
    ∃ slots, parameterSlots t = .ok slots ∧ (t ≠ .void → ∀ v ∈ slots, Slot.Sound excused v) := by
  obtain ⟨v, hv, hsound⟩ := exists_valueOf excused h
  unfold parameterSlots
  rw [hv]
  refine ⟨_, rfl, fun hvoid w hw => ?_⟩
  split at hw
  · rcases List.mem_pair.mp hw with rfl | rfl
    · exact hsound hvoid
    · exact Slot.sound_uninit
  · rw [List.mem_singleton.mp hw]
    exact hsound hvoid

/-- **A method that was read has a first frame**, or is refused. -/
theorem entryFrame_outcome (hn : m.Normal) (owner : String) :
    (∃ entry, entryFrame owner m = .ok entry) ∨ ∃ e, entryFrame owner m = .error (.failed e) := by
  have houtcome := entryOutcome owner m
  generalize entryFrame owner m = outcome at houtcome ⊢
  cases houtcome with
  | descriptor _ => exact Or.inr ⟨_, rfl⟩
  | negative _ hnegative =>
    have hlocals := hn.maxLocals
    have hstack := hn.maxStack
    omega
  | short _ _ _ _ _ _ => exact Or.inr ⟨_, rfl⟩
  | frame _ _ _ _ _ _ _ _ => exact Or.inl ⟨_, rfl⟩

/-- **The first frame is sound**, unless the receiver is of an array of nothing. -/
theorem each_entryFrame (h : entryFrame owner m = .ok entry) :
    entry.Each (Slot.Sound (m.NamesNothing owner)) := by
  obtain ⟨-, -, t, arguments, parameters, returned, result, ht, harguments, hparameters, -, -, -, rfl⟩ :=
    entryFrame_layout h
  obtain ⟨d, rfl, hparse⟩ := Desc.parse_of_parseMethod ht
  obtain ⟨arguments', harguments', hwhole⟩ := Ty.exists_arguments hparse
  cases harguments.symm.trans harguments'
  refine ⟨fun v hv => ?_, fun v hv => nomatch hv⟩
  simp only [List.mem_toArray, List.mem_append] at hv
  rcases hv with (hv | hv) | hv
  · -- The receiver.
    unfold receiverSlots at hv
    split at hv
    · exact nomatch hv
    · rename_i hstatic
      rw [List.mem_singleton.mp hv]
      refine sound_ofClassName fun hname => ⟨owner, ?_, hname⟩
      simp [Method.classNames, hstatic]
  · -- A parameter, which is not `void`.
    obtain ⟨slots, hslots, hv⟩ := List.mem_flatten.mp hv
    obtain ⟨a, ha, hslots⟩ := exists_of_mem_mapM hparameters hslots
    obtain ⟨slots', hslots', hsound⟩ := exists_parameterSlots _ (hwhole a ha)
    cases hslots.symm.trans hslots'
    exact hsound (Ty.ne_void_of_mem_arguments harguments a ha) v hv
  · rw [List.eq_of_mem_replicate hv]
    exact Slot.sound_uninit

/-! ## Visits -/

variable {g : Graph}

/-- A handler finds the value of a class that the method names, or of all exceptions. -/
theorem sound_caught (hg : Graph.ofMethod m = .ok g) {i : Nat} {handler : Handler}
    (hh : handler ∈ g.handlersAt i) :
    Slot.Sound (m.NamesNothing owner) (some handler.caught) := by
  obtain ⟨guard, hguard, rfl⟩ := List.mem_map.mp hh
  obtain ⟨guards, hguards, hg⟩ := bind_eq_ok_iff.mp hg
  cases hg
  obtain ⟨block, hblock, hguard⟩ := exists_of_mem_mapM hguards (List.mem_of_mem_filter hguard)
  obtain ⟨first, -, hguard⟩ := bind_eq_ok_iff.mp hguard
  obtain ⟨last, -, hguard⟩ := bind_eq_ok_iff.mp hguard
  obtain ⟨index, -, hguard⟩ := bind_eq_ok_iff.mp hguard
  cases hguard
  refine sound_ofClassName fun hname => ?_
  split at hname
  · exact absurd hname (by decide)
  · refine ⟨block.type, ?_, hname⟩
    simp only [Method.classNames, List.mem_append, List.mem_map]
    exact Or.inr ⟨block, hblock, rfl⟩

/-- An instruction of the method has an excuse for the class that it names. -/
theorem namesNothing_of_namedClass? {i : Nat} {insn : Insn} (hi : m.insns[i]? = some insn)
    {name : String} (hname : insn.namedClass? = some name) (h : Bracketed name) :
    m.NamesNothing owner := by
  refine ⟨name, ?_, h⟩
  simp only [Method.classNames, List.mem_append, List.mem_filterMap]
  exact Or.inl (Or.inr ⟨insn, Array.mem_toList_iff.mpr (Array.mem_of_getElem? hi), hname⟩)

/-- **A visit sends sound frames.** -/
theorem each_of_outgoing (hn : m.Normal) (hg : Graph.ofMethod m = .ok g) {i j : Nat} {insn : Insn}
    {f f' : Frame} (hi : m.insns[i]? = some insn) (hf : f.Each (Slot.Sound (m.NamesNothing owner)))
    (h : .ok (j, f') ∈ outgoing g i insn f) : f'.Each (Slot.Sound (m.NamesNothing owner)) := by
  have hnormal := hn.insns insn (Array.mem_of_getElem? hi)
  obtain ⟨after, hexec, ⟨-, rfl⟩ | ⟨handler, hh, -, rfl⟩⟩ := mem_outgoing_iff.mp h
  · exact Frame.each_of_execute hnormal (fun _ => namesNothing_of_namedClass? hi) hf hexec
  · exact ⟨hf.locals, List.forall_mem_singleton.mpr (sound_caught hg hh)⟩

theorem execute_of_fault_outgoing {i : Nat} {insn : Insn} {f : Frame} {fault : Fault}
    (h : .error (.fault fault) ∈ outgoing g i insn f) : f.execute insn = .error (.fault fault) := by
  unfold outgoing at h
  split at h
  · rename_i hexec
    cases List.mem_singleton.mp h
    exact hexec
  · rcases List.mem_append.mp h with h | h
    · obtain ⟨t, -, ht⟩ := List.mem_map.mp h
      cases t <;> exact nomatch ht
    · obtain ⟨handler, -, hh⟩ := List.mem_map.mp h
      exact nomatch hh

/-! ## Runs -/

/-- **What steps of the analysis keep**: all frames are sound and of one method, and a packet is a fault
only with an excuse. -/
structure Config.Sound (excused : Prop) (entry : Frame) (c : Config) : Prop where
  all : c.All fun _ f => f.Each (Slot.Sound excused) ∧ entry.Peer f
  faults : ∀ fault, .error (.fault fault) ∈ c.pending → EndFault excused fault

theorem Step.sound (hn : m.Normal) (hg : Graph.ofMethod m = .ok g) {c c' : Config} {popped : Option Nat}
    (h : Step g c popped c') (hc : c.Sound (m.NamesNothing owner) entry) :
    c'.Sound (m.NamesNothing owner) entry := by
  have hmethod := Graph.method_of_ofMethod hg
  refine ⟨h.all ?_ ?_ hc.all, ?_⟩
  · rintro i insn f j f' hi ⟨hf, hpeer⟩ hsent
    exact ⟨each_of_outgoing hn hg (hmethod ▸ hi) hf hsent, hpeer.trans (peer_of_outgoing hsent)⟩
  · rintro j old f new ⟨hold, hpeer⟩ - hmerge
    exact ⟨hold.of_below Slot.sound_uninit (Frame.below_of_merge hmerge).1,
      hpeer.trans (Frame.peer_of_merge hmerge)⟩
  · intro fault hfault
    -- A fault can only be in the packets of a visit that has just begun.
    cases h with
    | @pop _ i s _ insn before _ hi hf =>
      have hi' : m.insns[i]? = some insn := hmethod ▸ hi
      exact Frame.endFault_of_execute (hn.insns insn (Array.mem_of_getElem? hi'))
        (fun _ => namesNothing_of_namedClass? hi') (hc.all.frames i before hf).1
        (execute_of_fault_outgoing hfault)
    | deliver _ => exact hc.faults fault (List.mem_cons_of_mem _ hfault)

theorem Steps.sound (hn : m.Normal) (hg : Graph.ofMethod m = .ok g) {c c' : Config} {visits : List Nat}
    (h : Steps g c visits c') (hc : c.Sound (m.NamesNothing owner) entry) :
    c'.Sound (m.NamesNothing owner) entry :=
  h.keeps (P := fun c => c.Sound (m.NamesNothing owner) entry) (Step.sound hn hg) hc

/-- Frames of one method are not refused with a fault where they meet. -/
theorem deliver_ne_fault {s : State} {j : Nat} {f : Frame} (fault : Fault) (hf : entry.Peer f)
    (hs : ∀ old, s.frames[j]? = some (some old) → entry.Peer old) :
    s.deliver j f ≠ .error (.fault fault) := by
  intro h
  rw [State.deliver_eq] at h
  split at h
  · exact nomatch h
  · exact nomatch h
  · rename_i old hold
    have hsize : old.locals.size = f.locals.size := (hs old hold).locals.symm.trans hf.locals
    split at h
    · rename_i halt hmerge
      cases h
      -- Heights may differ, but that is no fault; the numbers of variables do not.
      unfold Frame.merge at hmerge
      split at hmerge
      · exact nomatch hmerge
      · rw [if_neg (not_not_intro hsize)] at hmerge
        exact nomatch hmerge
    · split at h
      · exact nomatch h
      · exact nomatch h

/-- A run over sound frames ends with a fault only if there is an excuse. -/
theorem Ends.endFault {c : Config} {fault : Fault} (h : Ends g c (.error (.fault fault)))
    (hc : c.Sound excused entry) : EndFault excused fault := by
  generalize houtcome : Except.error (Halt.fault fault) = outcome at h
  cases h with
  | done _ => exact nomatch houtcome
  | @failed i s insn halt rest hi =>
    cases halt with
    | failed cause => exact nomatch houtcome
    | fault fault' =>
      cases houtcome
      exact hc.faults _ List.mem_cons_self
  | @refused i j s insn f halt rest hi hdeliver =>
    cases halt with
    | failed cause => exact nomatch houtcome
    | fault fault' =>
      have hf : entry.Peer f := (hc.all.pending j f List.mem_cons_self).2
      exact absurd hdeliver (deliver_ne_fault fault' hf fun old hold => (hc.all.frames j old hold).2)

/-- **The analysis of a method of instructions that fit their codes** faults only if a class name in it
is one of an array of nothing. -/
theorem endFault_of_analyze (hn : m.Normal) {fault : Fault}
    (h : analyze owner m = .error (.fault fault)) : EndFault (m.NamesNothing owner) fault := by
  have hbind := h
  unfold analyze at hbind
  split at hbind
  · exact nomatch hbind
  rename_i hcode
  have hcode : m.hasCode := by simpa using hcode
  -- Without a graph or a first frame the method is refused; with them there is a run.
  rcases bind_eq_error_iff.mp hbind with hgraph | ⟨g, hg, hbind⟩
  · obtain ⟨l, -, hl⟩ := mapError_eq_error_iff.mp hgraph
    exact nomatch hl
  rw [mapError_eq_ok_iff] at hg
  rcases bind_eq_error_iff.mp hbind with hentry | ⟨entry, hentry, -⟩
  · rcases entryFrame_outcome hn owner with ⟨entry, hok⟩ | ⟨e, he⟩
    · exact nomatch hok.symm.trans hentry
    · exact nomatch he.symm.trans hentry
  obtain ⟨visits, c, hsteps, hends⟩ := exists_steps_analyze hcode hg hentry
  rw [h] at hends
  have hstart : Config.Sound (m.NamesNothing owner) entry ⟨0, [], State.start m.insns.size entry⟩ :=
    ⟨all_start hcode ⟨each_entryFrame hentry, Frame.Peer.refl entry⟩, fun _ hp => nomatch hp⟩
  exact hends.endFault (hsteps.sound hn hg hstart)

/-- **The analysis of a method that was read** gives frames or refuses the method, or it runs into the end
of a class name that consists of `[` only. -/
theorem analyze_parsed {data : List UInt8} {c : Class} (h : ClassFile.parse data = .ok c) {m : Method}
    (hm : m ∈ c.methods) :
    (∃ frames, analyze c.name m = .ok frames) ∨ (∃ e, analyze c.name m = .error (.failed e)) ∨
      analyze c.name m = .error (.fault (.type .endOfText)) ∧
        ∃ name ∈ m.classNames c.name, Bracketed name := by
  have hn : m.Normal := ClassFile.normal_of_parse h m hm
  cases hanalyze : analyze c.name m with
  | ok frames => exact Or.inl ⟨frames, rfl⟩
  | error halt =>
    cases halt with
    | failed e => exact Or.inr (Or.inl ⟨e, rfl⟩)
    | fault fault =>
      obtain ⟨rfl, hname⟩ := endFault_of_analyze hn hanalyze
      exact Or.inr (Or.inr ⟨rfl, hname⟩)

/-! ## A cast to an array of nothing -/

namespace ArrayOfNothing

/-- The entries of the pool: the names of the class, of its code and of the class to cast to. -/
def entries : List UInt8 :=
  [1, 0, 1, 0x41, 7, 0, 1, 1, 0, 4, 0x43, 0x6f, 0x64, 0x65, 1, 0, 3, 0x28, 0x29, 0x56,
    1, 0, 1, 0x5b, 7, 0, 5]

/-- The code casts `null`, loads the first component and drops it. -/
def code : List UInt8 := [0x01, 0xc0, 0, 6, 0x03, 0x32, 0x57, 0xb1]

def data : List UInt8 :=
  [0xCA, 0xFE, 0xBA, 0xBE, 0, 0, 0, 0x34, 0, 7] ++ entries ++
    [0, 0, 0, 2, 0, 0, 0, 0, 0, 0, 0, 1] ++
    [0, 8, 0, 1, 0, 4, 0, 1, 0, 3, 0, 0, 0, 20, 0, 2, 0, 0, 0, 0, 0, 8] ++ code ++ [0, 0, 0, 0, 0, 0]

def method : Method where
  access := 8
  name := "A"
  desc := "()V"
  maxStack := 2
  maxLocals := 0
  insns := #[.plain ⟨0x01⟩, .type .checkcast "[", .plain ⟨0x03⟩, .plain ⟨0x32⟩, .plain ⟨0x57⟩,
    .plain ⟨0xb1⟩]
  tryCatch := []

def aClass : Class := ⟨0x34, 0, 0, "A", "", [], [], [method]⟩

def graph : Graph := ⟨method, [], []⟩

def frame (stack : List Slot) : Frame := ⟨#[], stack, 2, none⟩

/-- The frames up to the load. -/
def frames : Array (Option Frame) :=
  #[some (frame []), some (frame [some (.object "Lnull;")]), some (frame [some (.array "[")]),
    some (frame [some .int, some (.array "[")]), none, none]

set_option maxRecDepth 4000 in
theorem parse_eq : ClassFile.parse data = .ok aClass := by with_unfolding_all rfl

theorem ofMethod_eq : Graph.ofMethod method = .ok graph := rfl

theorem entryFrame_eq : entryFrame "A" method = .ok (frame []) :=
  eq_ok_of_toOption (by decide +kernel)

theorem advance_eq : Plain.advance graph 3 (Plain.start 6 (frame [])) = some ⟨frames, [3]⟩ := by
  decide +kernel

theorem execute_eq : (frame [some .int, some (.array "[")]).execute (.plain ⟨0x32⟩) =
    .error (.fault (.type .endOfText)) := rfl

theorem analyze_eq : analyze "A" method = .error (.fault (.type .endOfText)) :=
  analyze_of_advance 3 rfl ofMethod_eq entryFrame_eq advance_eq rfl rfl execute_eq

end ArrayOfNothing

theorem analyze_parsed_arrayOfNothing :
    ClassFile.parse ArrayOfNothing.data = .ok ArrayOfNothing.aClass ∧
      ArrayOfNothing.method ∈ ArrayOfNothing.aClass.methods ∧
      ((∃ frames, analyze "A" ArrayOfNothing.method = .ok frames) ∨
        (∃ e, analyze "A" ArrayOfNothing.method = .error (.failed e)) ∨
        analyze "A" ArrayOfNothing.method = .error (.fault (.type .endOfText)) ∧
          ∃ name ∈ ArrayOfNothing.method.classNames "A", Bracketed name) :=
  ⟨ArrayOfNothing.parse_eq, List.mem_singleton_self _,
    analyze_parsed ArrayOfNothing.parse_eq (List.mem_singleton_self _)⟩

/-- **The analysis of a class that was read can fault.** -/
theorem parsed_class_faults :
    ¬ ∀ (data : List UInt8) (c : Class) (m : Method), ClassFile.parse data = .ok c → m ∈ c.methods →
      (∃ frames, analyze c.name m = .ok frames) ∨ ∃ e, analyze c.name m = .error (.failed e) := by
  intro h
  have houtcome := h _ _ _ ArrayOfNothing.parse_eq (List.mem_singleton_self _)
  rw [show ArrayOfNothing.aClass.name = "A" from rfl, ArrayOfNothing.analyze_eq] at houtcome
  rcases houtcome with ⟨frames, hframes⟩ | ⟨e, he⟩
  · exact nomatch hframes
  · exact nomatch he

end Flow

end StackMap
