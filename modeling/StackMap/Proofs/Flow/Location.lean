import StackMap.Proofs.Flow.Control

/-!
# `Proofs.Flow.Location`: where a refused method is wrong

A method is refused before the first visit, because of a handler, the descriptor or the number of its local
variables, or else at an instruction. Such an instruction is one that control reaches: the analysis visits
positions with frames only, and frames travel along edges. What is wrong there is found in the packets of
the visit, since the run ends at one of them: the instruction does not run on its frame, a label is unknown,
a packet leads out of the method, or it meets a frame with another height of the stack.

## Contents

* `Graph.guardOf_eq_error`, `entryFrame_failed`: failures before the first visit.
* `Holds`, `Blame`: the frames that a run has held, and what can be wrong at an instruction.
* `Steps.pending_of_outgoing`, `Ends.blame`: what a run that fails ends with.
* `analyze_failed`: where a refused method is wrong.
-/

namespace StackMap

/-! ## Before the first visit -/

/-- The labels of a handler. -/
def TryCatch.labels (block : TryCatch) : List Label := [block.start, block.stop, block.handler]

namespace Graph

theorem guardOf_eq_error {m : Method} {block : TryCatch} {l : Label}
    (h : guardOf m block = .error l) : l ∈ block.labels ∧ m.position? l = none := by
  rcases bind_eq_error_iff.mp h with h | ⟨first, -, h⟩
  · obtain ⟨rfl, hnone⟩ := locate_eq_error_iff.mp h
    exact ⟨List.mem_cons_self, hnone⟩
  rcases bind_eq_error_iff.mp h with h | ⟨last, -, h⟩
  · obtain ⟨rfl, hnone⟩ := locate_eq_error_iff.mp h
    exact ⟨List.mem_cons_of_mem _ List.mem_cons_self, hnone⟩
  rcases bind_eq_error_iff.mp h with h | ⟨index, -, h⟩
  · obtain ⟨rfl, hnone⟩ := locate_eq_error_iff.mp h
    exact ⟨List.mem_cons_of_mem _ (List.mem_cons_of_mem _ List.mem_cons_self), hnone⟩
  · exact nomatch h

/-- **The graph of a method lacks a label of one of its handlers**, if there is none. -/
theorem ofMethod_eq_error {m : Method} {l : Label} (h : ofMethod m = .error l) :
    ∃ block ∈ m.tryCatch, l ∈ block.labels ∧ m.position? l = none := by
  rcases bind_eq_error_iff.mp h with h | ⟨guards, -, h⟩
  · obtain ⟨block, hblock, hguard⟩ := exists_of_mapM_eq_error h
    exact ⟨block, hblock, guardOf_eq_error hguard⟩
  · exact nomatch h

/-- A target that is missing is a label that the instruction names. -/
theorem mem_references_of_mem_targets {g : Graph} {i : Nat} {insn : Insn} {l : Label}
    (h : .error l ∈ g.targets i insn) : l ∈ insn.references ∧ g.method.position? l = none := by
  have hmap : ∀ {labels : List Label}, .error l ∈ labels.map (locate g.method) →
      l ∈ labels ∧ g.method.position? l = none := by
    intro labels hl
    obtain ⟨l', hl', hlocate⟩ := List.mem_map.mp hl
    obtain ⟨rfl, hnone⟩ := locate_eq_error_iff.mp hlocate
    exact ⟨hl', hnone⟩
  unfold targets at h
  split at h
  · exact nomatch List.mem_singleton.mp h
  split at h
  · split at h
    · exact hmap (List.mem_cons.mp h |>.resolve_left nofun)
    · exact hmap h
  · exact hmap h
  · exact hmap h
  · split at h
    · obtain ⟨k, -, hk⟩ := List.mem_map.mp h
      exact nomatch hk
    · split at h
      · exact nomatch h
      · exact nomatch List.mem_singleton.mp h

end Graph

namespace Flow

variable {owner : String} {m : Method} {g : Graph} {entry : Frame} {i : Nat} {insn : Insn}

/-- The parameters of a method, with the receiver, need more local variables than it has. -/
def LacksLocals (owner : String) (m : Method) : Prop :=
  ∃ t arguments parameters, m.type = .ok t ∧ t.arguments = .ok arguments ∧
    arguments.mapM parameterSlots = .ok parameters ∧
    m.maxLocals < (receiverSlots owner m ++ parameters.flatten).length

/-- **A method without a first frame** has a bad descriptor, or its parameters do not fit. -/
theorem entryFrame_failed {e : AnalysisError} (h : entryFrame owner m = .error (.failed e)) :
    (∃ d, m.type = .error d ∧ e = .descriptor d) ∨
      e = .parameters m.name m.desc m.maxLocals ∧ LacksLocals owner m := by
  have houtcome := entryOutcome owner m
  rw [h] at houtcome
  cases houtcome with
  | descriptor htype => exact Or.inl ⟨_, htype, rfl⟩
  | short htype hlocals hstack harguments hparameters hshort =>
    exact Or.inr ⟨rfl, _, _, _, htype, harguments, hparameters, by omega⟩

/-! ## What is wrong at an instruction -/

/-- **The analysis holds a frame at a position**, at some time of its run. -/
def Holds (g : Graph) (entry : Frame) (i : Nat) (f : Frame) : Prop :=
  ∃ visits c, Steps g ⟨0, [], State.start g.method.insns.size entry⟩ visits c ∧
    c.state.frames[i]? = some (some f)

/-- **What can be wrong at an instruction.** -/
inductive Blame (g : Graph) (entry : Frame) (i : Nat) (insn : Insn) : Cause → Prop where
  /-- It does not run on a frame that the analysis holds there. -/
  | execution {before : Frame} {cause : Cause} : Holds g entry i before →
      before.execute insn = .error (.failed cause) → Blame g entry i insn cause
  /-- It names a label that is not in the list of instructions. -/
  | label {l : Label} : l ∈ insn.references → g.method.position? l = none →
      Blame g entry i insn (.unknownLabel l)
  /-- Control goes from it to a position behind the last one. -/
  | leaves {j : Nat} : g.method.Leads (· ≠ .pseudo) i j → g.method.insns.size ≤ j →
      Blame g entry i insn .fallOffEnd
  /-- A frame that it sends on meets one with another height of the stack. -/
  | heights {j : Nat} {before sent old : Frame} : Holds g entry i before →
      .ok (j, sent) ∈ outgoing g i insn before → Holds g entry j old →
      old.stack.length ≠ sent.stack.length →
      Blame g entry i insn (.stackHeights old.stack.length sent.stack.length)

/-- The failures that a visit sends. -/
theorem mem_outgoing_error {before : Frame} {cause : Cause}
    (h : .error (.failed cause) ∈ outgoing g i insn before) :
    before.execute insn = .error (.failed cause) ∨
      ∃ l, cause = .unknownLabel l ∧ .error l ∈ g.targets i insn := by
  unfold outgoing at h
  split at h
  · rename_i hexec
    cases List.mem_singleton.mp h
    exact Or.inl hexec
  · rcases List.mem_append.mp h with h | h
    · obtain ⟨t, ht, hp⟩ := List.mem_map.mp h
      cases t with
      | error l =>
        cases hp
        exact Or.inr ⟨l, rfl, ht⟩
      | ok j => exact nomatch hp
    · obtain ⟨handler, -, hp⟩ := List.mem_map.mp h
      exact nomatch hp

/-- What a refused delivery says. -/
theorem deliver_failed {s : State} {j : Nat} {f : Frame} {cause : Cause}
    (h : s.deliver j f = .error (.failed cause)) :
    cause = .fallOffEnd ∧ s.frames.size ≤ j ∨
      ∃ old, s.frames[j]? = some (some old) ∧ old.stack.length ≠ f.stack.length ∧
        cause = .stackHeights old.stack.length f.stack.length := by
  rw [State.deliver_eq] at h
  split at h
  · rename_i hnone
    cases h
    exact Or.inl ⟨rfl, Array.getElem?_eq_none_iff.mp hnone⟩
  · exact nomatch h
  · rename_i old hold
    split at h
    · rename_i hmerge
      cases h
      unfold Frame.merge at hmerge
      split at hmerge
      · rename_i hheight
        cases hmerge
        exact Or.inr ⟨old, hold, hheight, rfl⟩
      · split at hmerge
        · exact nomatch hmerge
        · exact nomatch hmerge
    · split at h
      · exact nomatch h
      · exact nomatch h

/-! ## Runs that fail -/

/-- **What is under way left the position of the visit**, with a frame that the run held there. -/
theorem Steps.pending_of_outgoing {visits : List Nat} {c : Config} {p : Packet}
    (h : Steps g ⟨0, [], State.start g.method.insns.size entry⟩ visits c) (hp : p ∈ c.pending) :
    ∃ insn before, g.method.insns[c.site]? = some insn ∧ Holds g entry c.site before ∧
      p ∈ outgoing g c.site insn before := by
  generalize hstart : Config.mk 0 [] (State.start g.method.insns.size entry) = start at h
  induction h with
  | refl =>
    rw [← hstart] at hp
    exact absurd hp List.not_mem_nil
  | @tail c' c'' visits popped hsteps hstep ih =>
    cases hstep with
    | @pop _ i s _ insn before _ hi hf => exact ⟨insn, before, hi, ⟨visits, _, hstart ▸ hsteps, hf⟩, hp⟩
    | deliver hd => exact ih (List.mem_cons_of_mem _ hp)

/-- Control reaches the positions where the analysis holds frames. -/
theorem Holds.reachable (hcode : g.method.hasCode) {f : Frame} (h : Holds g entry i f) :
    g.Reachable i := by
  obtain ⟨visits, c, hsteps, hf⟩ := h
  have hall := hsteps.all (P := fun i _ => g.Reachable i)
    (fun _ _ _ _ _ hi hreach hp => .step hreach (edge_of_outgoing hi hp))
    (fun _ _ _ _ hold _ _ => hold) (all_start hcode .start)
  exact hall.frames i f hf

/-- **A run that fails ends at an instruction that control reaches**, and something is wrong there. -/
theorem Ends.blame {visits : List Nat} {c : Config} {e : AnalysisError} (hg : Graph.ofMethod m = .ok g)
    (hcode : m.hasCode) (h : Steps g ⟨0, [], State.start g.method.insns.size entry⟩ visits c)
    (hends : Ends g c (.error (.failed e))) :
    ∃ i insn cause, e = .insn ⟨insn, some i, cause⟩ ∧ m.insns[i]? = some insn ∧ g.Reachable i ∧
      Blame g entry i insn cause := by
  have hmethod := Graph.method_of_ofMethod hg
  have hcode' : g.method.hasCode := hmethod ▸ hcode
  generalize houtcome : Except.error (Halt.failed e) = outcome at hends
  cases hends with
  | done _ => exact nomatch houtcome
  | @failed i s insn halt rest hi =>
    obtain ⟨insn', before, hi', hheld, hmem⟩ := h.pending_of_outgoing List.mem_cons_self
    cases hi.symm.trans hi'
    cases halt with
    | fault f => exact nomatch houtcome
    | failed cause =>
      cases houtcome
      refine ⟨i, insn, cause, rfl, hmethod ▸ hi, hheld.reachable hcode', ?_⟩
      rcases mem_outgoing_error hmem with hexec | ⟨l, rfl, hl⟩
      · exact .execution hheld hexec
      · obtain ⟨hreferences, hnone⟩ := Graph.mem_references_of_mem_targets hl
        exact .label hreferences hnone
  | @refused i j s insn f halt rest hi hrefused =>
    obtain ⟨insn', before, hi', hheld, hmem⟩ := h.pending_of_outgoing List.mem_cons_self
    cases hi.symm.trans hi'
    cases halt with
    | fault f => exact nomatch houtcome
    | failed cause =>
      cases houtcome
      refine ⟨i, insn, cause, rfl, hmethod ▸ hi, hheld.reachable hcode', ?_⟩
      rcases deliver_failed hrefused with ⟨rfl, hsize⟩ | ⟨old, hold, hheights, rfl⟩
      · have hwf := h.wellFormed (State.wellFormed_start (Method.size_pos_of_hasCode hcode'))
        have hleads := (Graph.edge_iff_leads hg).mp (edge_of_outgoing hi hmem)
        exact .leaves (hmethod ▸ hleads) (hwf.size ▸ hsize)
      · exact .heights hheld hmem ⟨visits, _, h, hold⟩ hheights

/-- **Where a refused method is wrong**: before the first visit, because of a label of a handler, the
descriptor or the number of local variables; or at an instruction that control reaches, which the error
names with its position, and where the cause that it gives is to be found. -/
theorem analyze_failed {e : AnalysisError} (h : analyze owner m = .error (.failed e)) :
    (∃ l, e = .handlerLabel l ∧ ∃ block ∈ m.tryCatch, l ∈ block.labels ∧ m.position? l = none) ∨
      (∃ d, e = .descriptor d ∧ m.type = .error d) ∨
      e = .parameters m.name m.desc m.maxLocals ∧ LacksLocals owner m ∨
      ∃ g entry, Graph.ofMethod m = .ok g ∧ entryFrame owner m = .ok entry ∧
        ∃ i insn cause, e = .insn ⟨insn, some i, cause⟩ ∧ m.insns[i]? = some insn ∧ m.Reaches i ∧
          Blame g entry i insn cause := by
  have hbind := h
  unfold analyze at hbind
  split at hbind
  · exact nomatch hbind
  rename_i hcode
  have hcode : m.hasCode := by simpa using hcode
  rcases bind_eq_error_iff.mp hbind with hgraph | ⟨g, hg, hbind⟩
  · obtain ⟨l, hl, he⟩ := mapError_eq_error_iff.mp hgraph
    cases he
    exact Or.inl ⟨l, rfl, Graph.ofMethod_eq_error hl⟩
  rcases bind_eq_error_iff.mp hbind with hfirst | ⟨entry, hentry, -⟩
  · rcases entryFrame_failed hfirst with ⟨d, hd, he⟩ | hparameters
    · exact Or.inr (Or.inl ⟨d, he, hd⟩)
    · exact Or.inr (Or.inr (Or.inl hparameters))
  rw [mapError_eq_ok_iff] at hg
  obtain ⟨visits, c, hsteps, hends⟩ := exists_steps_analyze hcode hg hentry
  rw [h] at hends
  rw [← Graph.method_of_ofMethod hg] at hsteps
  obtain ⟨i, insn, cause, he, hi, hreach, hblame⟩ := hends.blame hg hcode hsteps
  exact Or.inr (Or.inr (Or.inr ⟨g, entry, hg, hentry, i, insn, cause, he, hi,
    (Graph.reachable_iff_reaches hg).mp hreach, hblame⟩))

/-! ## A method that is refused

The first instruction that would find the stack empty is behind a jump and is not reached; the second one
is blamed. -/

end Flow

namespace DeadPop

def method : Method where
  access := 8
  name := "m"
  desc := "()V"
  maxStack := 0
  maxLocals := 0
  insns := #[.jump .goto ⟨"L", 0⟩, .plain ⟨0x57⟩, .label ⟨"L", 0⟩, .plain ⟨0x57⟩]
  tryCatch := []

def entry : Frame := ⟨#[], [], 0, none⟩

theorem entryFrame_eq : Flow.entryFrame "C" method = .ok entry :=
  eq_ok_of_toOption (by decide +kernel)

def graph : Graph := ⟨method, [], []⟩

theorem advance_eq :
    Plain.advance graph 2 (Plain.start method.insns.size entry) =
      some ⟨#[some entry, none, some entry, some entry], [3]⟩ := by
  decide +kernel

theorem execute_eq : entry.execute (.plain ⟨0x57⟩) = .error (.failed .stackUnderflow) := rfl

theorem analyze_eq :
    analyze "C" method = .error (.failed (.insn ⟨.plain ⟨0x57⟩, some 3, .stackUnderflow⟩)) :=
  Flow.analyze_of_advance 2 rfl rfl entryFrame_eq advance_eq rfl rfl execute_eq

end DeadPop

namespace Flow

theorem analyze_failed_deadPop :
    analyze "C" DeadPop.method = .error (.failed (.insn ⟨.plain ⟨0x57⟩, some 3, .stackUnderflow⟩)) ∧
      DeadPop.method.insns[3]? = some (.plain ⟨0x57⟩) ∧ DeadPop.method.Reaches 3 := by
  refine ⟨DeadPop.analyze_eq, rfl, ?_⟩
  rcases analyze_failed DeadPop.analyze_eq with
    ⟨l, he, -⟩ | ⟨d, he, -⟩ | ⟨he, -⟩ | ⟨g, entry, -, -, i, insn, cause, he, -, hreach, -⟩
  · exact nomatch he
  · exact nomatch he
  · exact nomatch he
  · cases he
    exact hreach

end Flow

end StackMap
