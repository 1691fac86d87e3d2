import StackMap.Proofs.Flow.Solution

/-!
# `Proofs.Flow.Reach`: frames and the positions that control reaches

Control reaches every position that has a frame, and every position that control reaches has one. So a
property of the frames of a method can be shown along the control flow: it holds of the first frame, and
the edges that leave a frame of the method pass it on. An invariant of the run (`Steps.all`) has to deal
with all frames that the analysis ever holds; here only the frames that it ends with occur.

## Contents

* `Steps.reachable`, `reachable_of_analyze`: control reaches what has a frame.
* `forall_frames_of_analyze`: properties of the frames of a method, along the control flow.
-/

namespace StackMap.Flow

variable {g : Graph} {owner : String} {m : Method} {entry : Frame} {frames : Array (Option Frame)}

/-- A visit sends frames along edges only. -/
theorem edge_of_outgoing {i j : Nat} {insn : Insn} {f f' : Frame}
    (hi : g.method.insns[i]? = some insn) (h : .ok (j, f') ∈ outgoing g i insn f) : g.Edge i j := by
  obtain ⟨after, -, ⟨ht, -⟩ | ⟨handler, hh, rfl, -⟩⟩ := mem_outgoing_iff.mp h
  · exact .flow hi ht
  · exact .exception hi hh

/-- Steps that come from positions that control reaches lead to such positions only. -/
theorem Steps.reachable {c c' : Config} {visits : List Nat} (h : Steps g c visits c')
    (hc : c.All fun i _ => g.Reachable i) : c'.All fun i _ => g.Reachable i := by
  have hsend : ∀ i insn f j f', g.method.insns[i]? = some insn → g.Reachable i →
      .ok (j, f') ∈ outgoing g i insn f → g.Reachable j := by
    intro i insn f j f' hi hreach hp
    exact hreach.step (edge_of_outgoing hi hp)
  exact h.all (P := fun i _ => g.Reachable i) hsend (fun _ _ _ _ hold _ _ => hold) hc

/-- **Control reaches what has a frame.** -/
theorem reachable_of_analyze (hcode : m.hasCode) (h : analyze owner m = .ok frames)
    (hg : Graph.ofMethod m = .ok g) {i : Nat} {f : Frame} (hf : frames[i]? = some (some f)) :
    g.Reachable i := by
  obtain ⟨g', entry, visits, k, s, hg', -, hsteps, -, rfl⟩ := exists_steps_of_analyze hcode h
  cases hg.symm.trans hg'
  exact (hsteps.reachable (all_start hcode .start)).frames i f hf

/-- **What the first frame has and the edges pass on, all frames of the method have.** The property has
to hold of every frame above one that has it, since frames that meet are joined. -/
theorem forall_frames_of_analyze {P : Nat → Frame → Prop} (hcode : m.hasCode)
    (h : analyze owner m = .ok frames) (hg : Graph.ofMethod m = .ok g)
    (hentry : entryFrame owner m = .ok entry) (hstart : P 0 entry)
    (habove : ∀ i f f', P i f → f.Below f' → P i f')
    (hedge : ∀ i insn f j f', m.insns[i]? = some insn → frames[i]? = some (some f) → P i f →
      .ok (j, f') ∈ outgoing g i insn f → P j f') :
    ∀ i f, frames[i]? = some (some f) → P i f := by
  have hsol : Solution g entry (framesAt frames) := .of_analyze hcode h hg hentry
  -- The induction is on the way that control takes; each position on it has its one frame.
  have hreached : ∀ i, g.Reachable i → ∃ f, frames[i]? = some (some f) ∧ P i f := by
    intro i hi
    induction hi with
    | start =>
      obtain ⟨first, hfirst, hbelow⟩ := hsol.start
      exact ⟨first, framesAt_eq_some_iff.mp hfirst, habove 0 entry first hstart hbelow⟩
    | @step i j _ hij ih =>
      obtain ⟨f, hf, hP⟩ := ih
      obtain ⟨insn, after, hi, hexec, htargets, hhandlers⟩ :=
        hsol.insn i f (framesAt_eq_some_iff.mpr hf)
      have hi' : m.insns[i]? = some insn := Graph.method_of_ofMethod hg ▸ hi
      cases hij with
      | flow hinsn ht =>
        cases hi.symm.trans hinsn
        obtain ⟨j', next, hj, hnext, hbelow⟩ := htargets _ ht
        cases hj
        have hsent : .ok (j, after) ∈ outgoing g i insn f :=
          mem_outgoing_iff.mpr ⟨after, hexec, Or.inl ⟨ht, rfl⟩⟩
        exact ⟨next, framesAt_eq_some_iff.mp hnext,
          habove j after next (hedge i insn f j after hi' hf hP hsent) hbelow⟩
      | @exception _ handler _ hh =>
        obtain ⟨next, hnext, hbelow⟩ := hhandlers handler hh
        have hsent : .ok (handler.index, handlerFrame f handler) ∈ outgoing g i insn f :=
          mem_outgoing_iff.mpr ⟨after, hexec, Or.inr ⟨handler, hh, rfl, rfl⟩⟩
        exact ⟨next, framesAt_eq_some_iff.mp hnext,
          habove _ _ next (hedge i insn f _ _ hi' hf hP hsent) hbelow⟩
  intro i f hf
  obtain ⟨f', hf', hP⟩ := hreached i (reachable_of_analyze hcode h hg hf)
  cases hf.symm.trans hf'
  exact hP

end StackMap.Flow
