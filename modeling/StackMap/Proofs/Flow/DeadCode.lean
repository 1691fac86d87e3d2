import StackMap.Proofs.Flow.Control

/-!
# `Proofs.Flow.DeadCode`: instructions that control does not reach

The analysis reads the instructions of a method in two ways. It runs an instruction when it visits its
position, and it visits only positions that control reaches. Beforehand it goes through all instructions,
but only for the labels and for the calls of subroutines. So two methods that share these, and that have
the same instruction wherever control gets in one of them, have the same outcome, whatever stands at the
other positions.

## Contents

* `Method.AgreesWhereReached`: methods that differ at most in dead code.
* `Graph.ofMethod_of_agrees`, `entryFrame_of_agrees`: what is read off before the first visit.
* `run_congr`: runs that find the same instruction at every position that control reaches.
* `analyze_of_agrees`: the outcomes are the same.
-/

namespace StackMap

/-- **Two methods that differ at most in dead code**: all but the instructions is the same, and so are
their number, where the labels stand and where subroutines are called. At each position that control
reaches in the first method the other one has the same instruction. -/
structure Method.AgreesWhereReached (m m' : Method) : Prop where
  access : m'.access = m.access
  name : m'.name = m.name
  desc : m'.desc = m.desc
  maxStack : m'.maxStack = m.maxStack
  maxLocals : m'.maxLocals = m.maxLocals
  tryCatch : m'.tryCatch = m.tryCatch
  size : m'.insns.size = m.insns.size
  position : ∀ l, m'.position? l = m.position? l
  call : ∀ i : Nat, m'.insns[i]?.map Insn.opcode = some .jsr ↔ m.insns[i]?.map Insn.opcode = some .jsr
  insn : ∀ i, m.Reaches i → m'.insns[i]? = m.insns[i]?

/-! ## What is read off before the first visit -/

namespace Graph

variable {m m' : Method} {g : Graph} {i : Nat} {insn : Insn}

/-- The positions behind the calls of subroutines, by where the calls stand. -/
theorem returnPointsOf_congr {insns insns' : Array Insn} (hsize : insns'.size = insns.size)
    (hcall : ∀ i : Nat, insns'[i]?.map Insn.opcode = some .jsr ↔ insns[i]?.map Insn.opcode = some .jsr) :
    returnPointsOf insns' = returnPointsOf insns := by
  -- The list of the calls, as a list of truth values, is all that is read.
  have hread : ∀ a : Array Insn, returnPointsOf a =
      ((a.toList.map fun insn => decide (insn.opcode = .jsr)).zipIdx.filterMap fun p =>
        if p.1 then some (p.2 + 1) else none) := by
    intro a
    rw [List.zipIdx_map, List.filterMap_map]
    unfold returnPointsOf
    congr 1
    funext p
    simp only [Function.comp_apply, Prod.map_fst, Prod.map_snd, id_eq, decide_eq_true_eq]
  have hcalls : (insns'.toList.map fun insn => decide (insn.opcode = .jsr)) =
      insns.toList.map fun insn => decide (insn.opcode = .jsr) := by
    refine List.ext_getElem (by simpa using hsize) fun i hi hi' => ?_
    rw [List.length_map, Array.length_toList] at hi hi'
    have h := hcall i
    rw [Array.getElem?_eq_getElem hi, Array.getElem?_eq_getElem hi', Option.map_some, Option.map_some,
      Option.some.injEq, Option.some.injEq] at h
    rw [List.getElem_map, List.getElem_map, Array.getElem_toList, Array.getElem_toList, decide_eq_decide]
    exact h
  rw [hread, hread, hcalls]

theorem locate_of_agrees (h : m.AgreesWhereReached m') (l : Label) : locate m' l = locate m l := by
  unfold locate
  rw [h.position]

/-- **The graphs are the same**, with the instructions of the other method. If a label of a handler is
missing in one method, then it is in the other. -/
theorem ofMethod_of_agrees (h : m.AgreesWhereReached m') :
    ofMethod m' = (ofMethod m).map fun g => { g with method := m' } := by
  have hguard : guardOf m' = guardOf m := by
    funext block
    unfold guardOf
    rw [locate_of_agrees h, locate_of_agrees h, locate_of_agrees h]
  unfold ofMethod
  rw [h.tryCatch, hguard, returnPointsOf_congr h.size h.call]
  cases m.tryCatch.mapM (guardOf m) <;> rfl

theorem targets_of_agrees (hg : ofMethod m = .ok g) (h : m.AgreesWhereReached m') :
    { g with method := m' }.targets i insn = g.targets i insn := by
  have hlocate : locate m' = locate g.method := by
    rw [method_of_ofMethod hg]
    exact funext (locate_of_agrees h)
  unfold targets
  simp only [hlocate]

end Graph

namespace Flow

variable {owner : String} {m m' : Method} {g g' : Graph}

/-- The first frame does not depend on the instructions. -/
theorem entryFrame_of_agrees (h : m.AgreesWhereReached m') (owner : String) :
    entryFrame owner m' = entryFrame owner m := by
  unfold entryFrame Method.type Method.isStatic
  rw [h.access, h.name, h.desc, h.maxStack, h.maxLocals]

/-! ## Runs -/

theorem outgoing_congr {i : Nat} {insn : Insn} {f : Frame} (htargets : g'.targets i insn = g.targets i insn)
    (hhandlers : g'.handlersAt i = g.handlersAt i) : outgoing g' i insn f = outgoing g i insn f := by
  unfold outgoing
  rw [htargets, hhandlers]

/-- A visit that finds the same instruction, which sends the same packets, is the same. -/
theorem visitQueued_congr {i : Nat} {insn : Insn} {before : Frame} {s : State}
    (hi : g.method.insns[i]? = some insn) (hi' : g'.method.insns[i]? = some insn)
    (hf : s.frames[i]? = some (some before))
    (houtgoing : outgoing g' i insn before = outgoing g i insn before) :
    visitQueued g' i s = visitQueued g i s := by
  rw [visitQueued_eq hi' hf, visitQueued_eq hi hf, houtgoing]

/-- **Runs that find the same instruction at every position that control reaches** are the same, if the
instructions send the same packets. -/
theorem run_congr {k : Nat} {s : State}
    (hinsn : ∀ i, g.Reachable i → g'.method.insns[i]? = g.method.insns[i]?)
    (houtgoing : ∀ i insn f, outgoing g' i insn f = outgoing g i insn f) (hs : s.WellFormed g)
    (hreached : Config.All (fun i _ => g.Reachable i) ⟨k, [], s⟩) : run g' s = run g s := by
  -- The induction is that of the loop. Only what control reaches has a frame, so that a visit finds the
  -- same instruction, and the frames that it sends go to such positions again.
  induction s using run.induct g generalizing k with
  | case1 s hpop => rw [run_of_pop?_none hpop, run_of_pop?_none hpop]
  | case2 s i queue hpop halt hvisit =>
    obtain ⟨before, hf, insn, hi⟩ := hs.due hpop
    have hi' := (hinsn i (hreached.frames i before hf)).trans hi
    have hsame := visitQueued_congr (s := { s with queue }) hi hi' hf (houtgoing i insn before)
    rw [run_of_pop?_some hpop, run_of_pop?_some hpop, hsame, hvisit]
  | case3 s i queue hpop s' hvisit ih =>
    obtain ⟨before, hf, insn, hi⟩ := hs.due hpop
    have hi' := (hinsn i (hreached.frames i before hf)).trans hi
    have hsame := visitQueued_congr (s := { s with queue }) hi hi' hf (houtgoing i insn before)
    rw [run_of_pop?_some hpop, run_of_pop?_some hpop, hsame, hvisit]
    have hsteps : Steps g ⟨k, [], s⟩ _ ⟨i, [], s'⟩ :=
      (Steps.single (.pop hpop hi hf)).trans (steps_of_visitQueued (s := { s with queue }) hi hf hvisit)
    exact ih (hsteps.wellFormed hs) (hsteps.reachable hreached)

/-- **Dead code does not matter.** Methods that differ at most in instructions that control does not reach
in the first of them have the same outcome: the same frames, or the same error at the same instruction. -/
theorem analyze_of_agrees (h : m.AgreesWhereReached m') : analyze owner m' = analyze owner m := by
  have hempty : m'.hasCode = m.hasCode := by
    unfold Method.hasCode Array.isEmpty
    rw [h.size]
  unfold analyze
  rw [hempty, Graph.ofMethod_of_agrees h, entryFrame_of_agrees h, h.size]
  cases hcode : m.hasCode with
  | false => rfl
  | true =>
    cases hg : Graph.ofMethod m with
    | error l => rfl
    | ok g =>
      cases hentry : entryFrame owner m with
      | error halt => rfl
      | ok entry =>
        have hmethod := Graph.method_of_ofMethod hg
        refine run_congr (g := g) (fun i hi => ?_) (fun i insn f => ?_) (wellFormed_start hcode hg)
          (all_start hcode .start)
        · rw [hmethod]
          exact h.insn i ((Graph.reachable_iff_reaches hg).mp hi)
        · exact outgoing_congr (Graph.targets_of_agrees hg h) rfl

end Flow

/-! ## Code behind a jump

The instruction behind the jump finds nothing on the stack in one method and has no descriptor in the
other. -/

namespace SkippedCall

def methodWith (dead : Insn) : Method where
  access := 8
  name := "m"
  desc := "()V"
  maxStack := 0
  maxLocals := 0
  insns := #[.jump .goto ⟨"end", 0⟩, dead, .label ⟨"end", 0⟩, .plain ⟨0xb1⟩]
  tryCatch := []

def method : Method := methodWith (.plain ⟨0x57⟩)

def other : Method := methodWith (.method .invokestatic "C" "f" "" false)

def entry : Frame := ⟨#[], [], 0, none⟩

def frames : Array (Option Frame) := #[some entry, none, some entry, some entry]

theorem entryFrame_eq : Flow.entryFrame "C" method = .ok entry :=
  eq_ok_of_toOption (by decide +kernel)

theorem analyze_eq : analyze "C" method = .ok frames :=
  Flow.analyze_of_replay (g := ⟨method, [], []⟩) 4 rfl rfl entryFrame_eq (by decide +kernel)

theorem agrees : method.AgreesWhereReached other where
  access := rfl
  name := rfl
  desc := rfl
  maxStack := rfl
  maxLocals := rfl
  tryCatch := rfl
  size := rfl
  position _ := rfl
  call i := by
    match i with
    | 0 | 1 | 2 | 3 => decide
    | _ + 4 => rfl
  insn i hi := by
    obtain ⟨f, hf⟩ := (Flow.exists_frame_iff_reaches rfl analyze_eq).mpr hi
    match i with
    | 0 | 2 | 3 => rfl
    | 1 => exact nomatch hf
    | _ + 4 => rfl

end SkippedCall

namespace Flow

theorem analyze_of_agrees_skippedCall :
    SkippedCall.method.AgreesWhereReached SkippedCall.other ∧
      analyze "C" SkippedCall.other = .ok SkippedCall.frames :=
  ⟨SkippedCall.agrees, (analyze_of_agrees SkippedCall.agrees).trans SkippedCall.analyze_eq⟩

end Flow

end StackMap
