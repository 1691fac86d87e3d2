import StackMap.Proofs.Flow.Control

/-!
# `Proofs.Flow.Straight`: straight-line code

In code without jumps, switches, ends of subroutines and handlers, control goes from each instruction to
the next one until an instruction leaves the method. The analysis then is the execution of the
instructions one after the other: every position is visited once, when its frame is the only one that has
arrived and no other position is queued, so nothing is ever joined.

## Contents

* `Method.Straight`, `Insn.ends`: straight-line code, and the instructions that leave a method.
* `follow`: the frames of the execution.
* `exists_run_of_follow`: the run up to a position that the execution reaches.
* `run_of_ends`, `run_of_execute_error`, `run_of_follow_size`: how the run ends.
* `analyze_straight`: the outcome of the analysis.
-/

namespace StackMap

/-- Whether control leaves the method at a node, by its operation code. -/
def Insn.ends (insn : Insn) : Bool := insn.opcode = .athrow || insn.opcode.isReturn

/-- **Straight-line code**: no jump, no switch, no end of a subroutine, and no handler. The code of a call
of a subroutine makes no other node a jump. -/
structure Method.Straight (m : Method) : Prop where
  insn : ∀ insn ∈ m.insns, ¬ insn.isJumpNode ∧ ¬ insn.isSwitch ∧ insn.opcode ≠ .ret
  tryCatch : m.tryCatch = []

namespace Graph

/-- The graph of a method without handlers. -/
theorem ofMethod_of_unguarded {m : Method} (h : m.tryCatch = []) :
    ofMethod m = .ok ⟨m, [], returnPointsOf m.insns⟩ := by
  unfold ofMethod
  rw [h]
  rfl

/-- A node that chooses no target has the next position for one, unless it leaves the method. -/
theorem targets_of_plain {g : Graph} {i : Nat} {insn : Insn} (hjump : ¬ insn.isJumpNode)
    (hswitch : ¬ insn.isSwitch) (hret : insn.opcode ≠ .ret) :
    g.targets i insn = if insn.ends then [] else [.ok (i + 1)] := by
  unfold targets
  by_cases hpseudo : insn.opcode = .pseudo
  · have hstays : ¬ insn.ends := by
      unfold Insn.ends
      rw [hpseudo]
      decide
    rw [if_pos hpseudo, if_neg hstays]
  · rw [if_neg hpseudo, if_neg hret]
    cases insn <;> first
      | exact absurd rfl hjump
      | exact absurd rfl hswitch
      | rfl

end Graph

namespace Flow

variable {owner : String} {m : Method} {entry f f' : Frame} {i k : Nat} {insn : Insn}

/-! ## The execution -/

/-- **The frame before each instruction in turn**, each executed on the frame that the one before it gives.
The execution stops at an instruction that leaves the method, and at one that does not run. -/
def follow (m : Method) (entry : Frame) : Nat → Option Frame
  | 0 => some entry
  | i + 1 =>
    match follow m entry i, m.insns[i]? with
    | some f, some insn => if insn.ends then none else (f.execute insn).toOption
    | _, _ => none

theorem follow_succ_iff :
    follow m entry (i + 1) = some f' ↔
      ∃ f insn, follow m entry i = some f ∧ m.insns[i]? = some insn ∧ ¬ insn.ends ∧
        f.execute insn = .ok f' := by
  rw [follow]
  constructor
  · intro h
    split at h
    · rename_i f insn hf hi
      split at h
      · exact nomatch h
      · rename_i hstays
        exact ⟨f, insn, hf, hi, hstays, eq_ok_of_toOption h⟩
    · exact nomatch h
  · rintro ⟨f, insn, hf, hi, hstays, hexec⟩
    rw [hf, hi]
    simp only [if_neg hstays, hexec]
    rfl

/-- The execution has come by every earlier position. -/
theorem exists_follow_of_le (hf : follow m entry k = some f) (hik : i ≤ k) :
    ∃ f', follow m entry i = some f' := by
  induction k generalizing f with
  | zero =>
    obtain rfl := Nat.le_zero.mp hik
    exact ⟨f, hf⟩
  | succ k ih =>
    rcases Nat.le_succ_iff.mp hik with hik | rfl
    · obtain ⟨f₀, -, hf₀, -⟩ := follow_succ_iff.mp hf
      exact ih hf₀ hik
    · exact ⟨f, hf⟩

/-- **The execution comes to an end**: behind the last instruction, at one that leaves the method, or at
one that does not run. -/
theorem exists_end_of_follow (hf : follow m entry i = some f) (hi : i ≤ m.insns.size) :
    ∃ k f', follow m entry k = some f' ∧ (k = m.insns.size ∨
      (∃ insn halt, m.insns[k]? = some insn ∧ f'.execute insn = .error halt) ∨
      ∃ last after, m.insns[k]? = some last ∧ last.ends ∧ f'.execute last = .ok after) := by
  generalize hrest : m.insns.size - i = rest
  induction rest generalizing i f with
  | zero => exact ⟨i, f, hf, Or.inl (by omega)⟩
  | succ rest ih =>
    have hget := Array.getElem?_eq_getElem (show i < m.insns.size by omega)
    cases hexec : f.execute m.insns[i] with
    | error halt => exact ⟨i, f, hf, Or.inr (Or.inl ⟨_, halt, hget, hexec⟩)⟩
    | ok after =>
      by_cases hends : m.insns[i].ends
      · exact ⟨i, f, hf, Or.inr (Or.inr ⟨_, after, hget, hends, hexec⟩)⟩
      · exact ih (follow_succ_iff.mpr ⟨f, _, hf, hget, hends, hexec⟩) (by omega) (by omega)

/-! ## The run along the execution -/

/-- The frames of the positions up to one. -/
def framesUpTo (m : Method) (entry : Frame) (i : Nat) : Array (Option Frame) :=
  Array.ofFn fun j : Fin m.insns.size => if j ≤ i then follow m entry j else none

theorem getElem?_framesUpTo {j : Nat} :
    (framesUpTo m entry i)[j]? =
      if j < m.insns.size then some (if j ≤ i then follow m entry j else none) else none := by
  unfold framesUpTo
  rw [Array.getElem?_ofFn]
  split <;> rfl

theorem getElem?_framesUpTo_self (hf : follow m entry i = some f) (hi : i < m.insns.size) :
    (framesUpTo m entry i)[i]? = some (some f) := by
  rw [getElem?_framesUpTo, if_pos hi, if_pos (Nat.le_refl i), hf]

/-- The straight-line graph of a method. -/
def straightGraph (m : Method) : Graph := ⟨m, [], Graph.returnPointsOf m.insns⟩

/-- An instruction that is executed and stays in the method sends its frame to the next position. -/
theorem outgoing_of_straight (hstraight : m.Straight) (hi : m.insns[i]? = some insn)
    (hexec : f.execute insn = .ok f') :
    outgoing (straightGraph m) i insn f = if insn.ends then [] else [.ok (i + 1, f')] := by
  obtain ⟨hjump, hswitch, hret⟩ := hstraight.insn insn (Array.mem_of_getElem? hi)
  have hhandlers : (straightGraph m).handlersAt i = [] := rfl
  unfold outgoing
  simp only [hexec, hhandlers, Graph.targets_of_plain hjump hswitch hret]
  split <;> rfl

/-- **The run up to a position that the execution reaches**: this position is the only one that is queued,
and every position up to it has the frame of the execution. -/
theorem exists_run_of_follow (hstraight : m.Straight)
    (hf : follow m entry i = some f) (hi : i < m.insns.size) :
    ∃ s, run (straightGraph m) (State.start m.insns.size entry) = run (straightGraph m) s ∧
      s.WellFormed (straightGraph m) ∧ s.frames = framesUpTo m entry i ∧ s.queue.toList = [i] := by
  induction i generalizing f with
  | zero =>
    refine ⟨_, rfl, State.wellFormed_start hi, ?_, State.queue_start _ _⟩
    refine Array.ext_getElem? fun j => ?_
    show ((Array.replicate m.insns.size none).setIfInBounds 0 (some entry))[j]? = _
    rw [Array.getElem?_setIfInBounds, Array.size_replicate, Array.getElem?_replicate,
      getElem?_framesUpTo]
    by_cases hj : 0 = j
    · subst hj
      rw [if_pos rfl, if_pos hi, if_pos hi, if_pos (Nat.le_refl 0)]
      rfl
    · rw [if_neg hj, if_neg fun hle : j ≤ 0 => hj (Nat.le_zero.mp hle).symm]
  | succ i ih =>
    obtain ⟨f₀, insn, hf₀, hinsn, hstays, hexec⟩ := follow_succ_iff.mp hf
    obtain ⟨s, hrun, hwf, hframes, hqueue⟩ := ih hf₀ (Nat.lt_of_succ_lt hi)
    have hbefore := hframes ▸ getElem?_framesUpTo_self hf₀ (Nat.lt_of_succ_lt hi)
    have hnext : s.frames[i + 1]? = some none := by
      rw [hframes, getElem?_framesUpTo, if_pos hi, if_neg (Nat.not_succ_le_self i)]
    -- The next position has no frame yet and gets that of the execution.
    have hdeliver : Plain.deliverEach (outgoing (straightGraph m) i insn f₀) ⟨s.frames, []⟩ =
        some ⟨s.frames.setIfInBounds (i + 1) (some f), [i + 1]⟩ := by
      rw [outgoing_of_straight hstraight hinsn hexec, if_neg hstays]
      unfold Plain.deliverEach Plain.deliver
      simp only [hnext]
      rfl
    obtain ⟨s', hrun', hwf', hplain⟩ := run_of_visit hwf hqueue hinsn hbefore hdeliver
    obtain ⟨hframes', hqueue'⟩ := Plain.mk.inj hplain
    refine ⟨s', hrun.trans hrun', hwf', ?_, hqueue'⟩
    refine Array.ext_getElem? fun j => ?_
    rw [hframes', Array.getElem?_setIfInBounds, hframes, getElem?_framesUpTo, getElem?_framesUpTo]
    have hsize : (framesUpTo m entry i).size = m.insns.size := Array.size_ofFn
    by_cases hj : i + 1 = j
    · subst hj
      rw [if_pos rfl, if_pos (hsize ▸ hi), if_pos hi, if_pos (Nat.le_refl _), hf]
    · have hle : j ≤ i ↔ j ≤ i + 1 := by omega
      simp only [if_neg hj, hle]

/-! ## The outcome -/

/-- **At an instruction that leaves the method** nothing is sent, and the run is over. -/
theorem run_of_ends {last : Insn} {after : Frame} (hstraight : m.Straight)
    (hf : follow m entry k = some f) (hlast : m.insns[k]? = some last) (hends : last.ends)
    (hexec : f.execute last = .ok after) :
    run (straightGraph m) (State.start m.insns.size entry) = .ok (framesUpTo m entry k) := by
  obtain ⟨hk, -⟩ := Array.getElem?_eq_some_iff.mp hlast
  obtain ⟨s, hrun, hwf, hframes, hqueue⟩ := exists_run_of_follow hstraight hf hk
  have hbefore := hframes ▸ getElem?_framesUpTo_self hf hk
  have hdeliver : Plain.deliverEach (outgoing (straightGraph m) k last f) ⟨s.frames, []⟩ =
      some ⟨s.frames, []⟩ := by
    rw [outgoing_of_straight hstraight hlast hexec, if_pos hends]
    rfl
  obtain ⟨s', hrun', -, hplain⟩ := run_of_visit hwf hqueue hlast hbefore hdeliver
  obtain ⟨hframes', hqueue'⟩ := Plain.mk.inj hplain
  rw [hrun, hrun', run_of_pop?_none (Worklist.pop?_eq_none_iff.mpr hqueue'), hframes', hframes]

/-- **At an instruction that does not run** the run halts. -/
theorem run_of_execute_error {halt : Halt Cause} (hstraight : m.Straight)
    (hf : follow m entry i = some f) (hinsn : m.insns[i]? = some insn)
    (hexec : f.execute insn = .error halt) :
    run (straightGraph m) (State.start m.insns.size entry) = .error (haltAt i insn halt) := by
  obtain ⟨hi, -⟩ := Array.getElem?_eq_some_iff.mp hinsn
  obtain ⟨s, hrun, -, hframes, hqueue⟩ := exists_run_of_follow hstraight hf hi
  have hbefore := hframes ▸ getElem?_framesUpTo_self hf hi
  rw [hrun]
  refine run_of_halt hqueue hinsn hbefore fun w => ?_
  unfold outgoing
  rw [hexec]
  rfl

/-- **Behind the last instruction** there is no position for a frame. -/
theorem run_of_follow_size {n : Nat} (hstraight : m.Straight) (hn : m.insns.size = n + 1)
    (hf : follow m entry (n + 1) = some f) :
    ∃ last, m.insns[n]? = some last ∧
      run (straightGraph m) (State.start m.insns.size entry) =
        .error (haltAt n last (.failed .fallOffEnd)) := by
  obtain ⟨f₀, last, hf₀, hlast, hstays, hexec⟩ := follow_succ_iff.mp hf
  have hi : n < m.insns.size := by omega
  obtain ⟨s, hrun, -, hframes, hqueue⟩ := exists_run_of_follow hstraight hf₀ hi
  have hbefore := hframes ▸ getElem?_framesUpTo_self hf₀ hi
  have hnowhere : s.frames[n + 1]? = none := by
    rw [hframes, getElem?_framesUpTo, if_neg (by omega)]
  refine ⟨last, hlast, ?_⟩
  rw [hrun]
  refine run_of_halt hqueue hlast hbefore fun w => ?_
  rw [outgoing_of_straight hstraight hlast hexec, if_neg hstays]
  unfold deliverEach
  rw [State.deliver_eq]
  simp only [hnowhere]

/-- **The analysis of straight-line code is its execution.** If the execution comes to an instruction that
leaves the method and runs, then the analysis gives the frames of the execution up to there, and none
behind it. If an instruction does not run, then the analysis halts at it in the same way, and if the code
ends before, then it falls off the end at the last instruction. One of the three is the case. -/
theorem analyze_straight (hcode : m.hasCode) (hstraight : m.Straight)
    (hentry : entryFrame owner m = .ok entry) :
    (∀ k f last after, follow m entry k = some f → m.insns[k]? = some last → last.ends →
      f.execute last = .ok after →
      ∃ frames, analyze owner m = .ok frames ∧ frames.size = m.insns.size ∧
        (∀ i ≤ k, ∃ fi, follow m entry i = some fi ∧ frames[i]? = some (some fi)) ∧
        ∀ i, k < i → i < m.insns.size → frames[i]? = some none) ∧
    (∀ i f insn halt, follow m entry i = some f → m.insns[i]? = some insn →
      f.execute insn = .error halt → analyze owner m = .error (haltAt i insn halt)) ∧
    (∀ f, follow m entry m.insns.size = some f →
      ∃ last, m.insns[m.insns.size - 1]? = some last ∧
        analyze owner m =
          .error (.failed (.insn ⟨last, some (m.insns.size - 1), .fallOffEnd⟩))) ∧
    ∃ k f, follow m entry k = some f ∧ (k = m.insns.size ∨
      (∃ insn halt, m.insns[k]? = some insn ∧ f.execute insn = .error halt) ∨
      ∃ last after, m.insns[k]? = some last ∧ last.ends ∧ f.execute last = .ok after) := by
  have hanalyze : analyze owner m = run (straightGraph m) (State.start m.insns.size entry) :=
    analyze_eq_run hcode (Graph.ofMethod_of_unguarded hstraight.tryCatch) hentry
  rw [hanalyze]
  refine ⟨?_, ?_, ?_, exists_end_of_follow rfl (Nat.zero_le _)⟩
  · intro k f last after hf hlast hends hexec
    obtain ⟨hk, -⟩ := Array.getElem?_eq_some_iff.mp hlast
    refine ⟨framesUpTo m entry k, run_of_ends hstraight hf hlast hends hexec, Array.size_ofFn, ?_, ?_⟩
    · intro i hik
      obtain ⟨fi, hfi⟩ := exists_follow_of_le hf hik
      refine ⟨fi, hfi, ?_⟩
      rw [getElem?_framesUpTo, if_pos (Nat.lt_of_le_of_lt hik hk), if_pos hik, hfi]
    · intro i hki hi
      rw [getElem?_framesUpTo, if_pos hi, if_neg (Nat.not_le.mpr hki)]
  · intro i f insn halt hf hinsn hexec
    exact run_of_execute_error hstraight hf hinsn hexec
  · intro f hf
    obtain ⟨n, hn⟩ := Nat.exists_eq_succ_of_ne_zero
      (Nat.pos_iff_ne_zero.mp (m.size_pos_of_hasCode hcode))
    obtain ⟨last, hlast, hrun⟩ := run_of_follow_size hstraight hn (hn ▸ hf)
    have hindex : m.insns.size - 1 = n := by omega
    rw [hindex]
    exact ⟨last, hlast, hrun⟩

end Flow

/-! ## A sum

The instruction behind the return would find the stack empty; the execution does not get there. -/

namespace Increment

def method : Method where
  access := 8
  name := "increment"
  desc := "(I)I"
  maxStack := 2
  maxLocals := 1
  insns := #[.var .iload 0, .plain ⟨0x04⟩, .plain ⟨0x60⟩, .plain ⟨0xac⟩, .plain ⟨0x57⟩]
  tryCatch := []

/-- A frame of the method: the parameter stays what it is. -/
def frame (stack : List Slot) : Frame := ⟨#[some .int], stack, 2, some .int⟩

theorem straight : method.Straight := ⟨by decide, rfl⟩

theorem entryFrame_eq : Flow.entryFrame "C" method = .ok (frame []) :=
  eq_ok_of_toOption (by decide +kernel)

theorem follow_eq : Flow.follow method (frame []) 3 = some (frame [some .int]) := by decide +kernel

theorem execute_eq : (frame [some .int]).execute (.plain ⟨0xac⟩) = .ok (frame []) :=
  eq_ok_of_toOption (by decide +kernel)

end Increment

namespace Flow

theorem analyze_straight_increment :
    Increment.method.Straight ∧ ∃ frames, analyze "C" Increment.method = .ok frames ∧
      frames[3]? = some (some (Increment.frame [some .int])) ∧ frames[4]? = some none := by
  obtain ⟨hends, -⟩ := analyze_straight rfl Increment.straight Increment.entryFrame_eq
  obtain ⟨frames, hanalyze, -, hframes, hbehind⟩ :=
    hends 3 _ (.plain ⟨0xac⟩) _ Increment.follow_eq rfl rfl Increment.execute_eq
  obtain ⟨f, hf, hget⟩ := hframes 3 (Nat.le_refl 3)
  cases Increment.follow_eq.symm.trans hf
  exact ⟨Increment.straight, frames, hanalyze, hget, hbehind 4 (by decide) (by decide)⟩

end Flow

end StackMap
