import StackMap.Proofs.Code.Position
import StackMap.Proofs.Flow.Location
import StackMap.Proofs.Frame.Composed

/-!
# `Proofs.Flow.Label`: methods that are refused because of a label

No instruction on its own is refused because of a label, and no frame that meets another one. So a method that
is refused for that reason has a handler or an instruction that names a label, and the label is not in its list
of instructions.

## Contents

* `Method.Names`: the labels that a method names.
* `exists_missing_label`: what is wrong with a method that is refused because of a label.
-/

namespace StackMap

/-- **A method names a label**, in one of its handlers or as an operand of an instruction. -/
def Method.Names (m : Method) (l : Label) : Prop :=
  (∃ block ∈ m.tryCatch, l ∈ block.labels) ∨ ∃ insn ∈ m.insns, l ∈ insn.references

theorem Cause.not_local_of_kind {c : Cause} (h : c.kind = .unknownLabel) : ¬ c.Local := by
  cases c with
  | unknownLabel l => exact False.elim
  | _ => exact nomatch h

namespace Flow

variable {owner : String} {m : Method} {g : Graph} {entry : Frame} {i : Nat} {insn : Insn}

/-- The only label to blame at an instruction is one that it names. -/
theorem Blame.exists_reference {cause : Cause} (h : Blame g entry i insn cause)
    (hkind : cause.kind = .unknownLabel) : ∃ l ∈ insn.references, g.method.position? l = none := by
  cases h with
  | execution _ hexec => exact absurd (Frame.local_of_execute hexec) (Cause.not_local_of_kind hkind)
  | label hl hnone => exact ⟨_, hl, hnone⟩
  | leaves _ _ => exact nomatch hkind
  | heights _ _ _ _ => exact nomatch hkind

/-- **A method that is refused because of a label** names one that is not in its list of instructions. -/
theorem exists_missing_label {e : AnalysisError} (h : analyze owner m = .error (.failed e))
    (hkind : e.kind = .unknownLabel) : ∃ l, m.Names l ∧ Insn.label l ∉ m.insns := by
  have hbind := h
  unfold analyze at hbind
  split at hbind
  · exact nomatch hbind
  rename_i hcode
  have hcode : m.hasCode := by simpa using hcode
  rcases bind_eq_error_iff.mp hbind with hgraph | ⟨g, hg, hbind⟩
  · obtain ⟨l, hl, -⟩ := mapError_eq_error_iff.mp hgraph
    obtain ⟨block, hblock, hmem, hnone⟩ := Graph.ofMethod_eq_error hl
    exact ⟨l, .inl ⟨block, hblock, hmem⟩, Method.position?_eq_none_iff.mp hnone⟩
  rcases bind_eq_error_iff.mp hbind with hfirst | ⟨entry, hentry, -⟩
  · rcases entryFrame_failed hfirst with ⟨d, -, rfl⟩ | ⟨rfl, -⟩
    · exact nomatch hkind
    · exact nomatch hkind
  rw [mapError_eq_ok_iff] at hg
  have hmethod := Graph.method_of_ofMethod hg
  obtain ⟨visits, c, hsteps, hends⟩ := exists_steps_analyze hcode hg hentry
  rw [h] at hends
  rw [← hmethod] at hsteps
  obtain ⟨i, insn, cause, rfl, hi, -, hblame⟩ := hends.blame hg hcode hsteps
  obtain ⟨l, hl, hnone⟩ := hblame.exists_reference hkind
  exact ⟨l, .inr ⟨insn, Array.mem_of_getElem? hi, hl⟩, Method.position?_eq_none_iff.mp (hmethod ▸ hnone)⟩

end Flow

end StackMap
