import StackMap.Proofs.Assembly.Instruction

/-!
# `Proofs.Assembly.Lines`: what one line becomes

A text is assembled line by line. By itself a line is blank, the definition of a label, an instruction, or it is
refused. The lines before it matter only through the labels that they define, and only to a line that defines
one itself.

## Contents

* `LineForm`, `LineForm.of`, `LineForm.behind`: what a line is, and what it becomes behind given labels.
* `assembleLines_cons_eq_ok_iff`, `assembleLines_cons_eq_error_iff`: the first line, and then the others.
* `Adds`, `adds_of_behind`: what a line that is accepted adds.
* `exists_behind`: the same line behind other labels.
-/

namespace StackMap.Assembly

/-- **What a line is by itself.** -/
inductive LineForm where
  | blank
  | label (name : List Char)
  | insn (i : Insn)
  | refused (e : LineError)

namespace LineForm

/-- The form of a line. -/
def of (raw : List Char) : LineForm :=
  let line := Text.trim (stripComment raw)
  if line.isEmpty then .blank
  else match definedLabel? line with
    | some name => .label name
    | none =>
      match instruction line with
      | .ok i => .insn i
      | .error e => .refused e

/-- **What a line becomes** when the labels `defined` stand before: at most one instruction, and the labels that
stand before the next line. -/
def behind (defined : List (List Char)) : LineForm → Except LineError (List Insn × List (List Char))
  | .blank => .ok ([], defined)
  | .label name =>
    if defined.contains name then .error (.duplicateLabel (str name))
    else .ok ([.label (labelOf name)], name :: defined)
  | .insn i => .ok ([i], defined)
  | .refused e => .error e

end LineForm

variable {number : Nat} {defined defined' : List (List Char)} {raw : List Char} {rest : List (List Char)}
  {added : List Insn} {form : LineForm}

/-! ## The first line and the others -/

theorem assembleLines_cons : assembleLines number defined (raw :: rest) =
    match (LineForm.of raw).behind defined with
    | .error e => .error ⟨number, e⟩
    | .ok (added, defined') => do
      return added.map (Numbered.mk number) ++ (← assembleLines (number + 1) defined' rest) := by
  rw [assembleLines]
  unfold LineForm.of
  dsimp only
  by_cases hempty : (Text.trim (stripComment raw)).isEmpty
  · rw [if_pos hempty, if_pos hempty]
    dsimp only [LineForm.behind]
    cases assembleLines (number + 1) defined rest with
    | error e => rfl
    | ok behind => rfl
  rw [if_neg hempty, if_neg hempty]
  cases definedLabel? (Text.trim (stripComment raw)) with
  | some name =>
    dsimp only [LineForm.behind]
    by_cases hname : name ∈ defined
    · rw [if_pos hname, if_pos (List.contains_iff_mem.mpr hname)]
    · rw [if_neg hname, if_neg (mt List.contains_iff_mem.mp hname)]
      rfl
  | none =>
    cases instruction (Text.trim (stripComment raw)) with
    | error e => rfl
    | ok insn => rfl

/-- **Lines are accepted** if the first one is, and the others are behind the labels that it leaves. -/
theorem assembleLines_cons_eq_ok_iff {numbered : List Numbered} :
    assembleLines number defined (raw :: rest) = .ok numbered ↔
      ∃ added defined' others, (LineForm.of raw).behind defined = .ok (added, defined') ∧
        assembleLines (number + 1) defined' rest = .ok others ∧
        numbered = added.map (Numbered.mk number) ++ others := by
  rw [assembleLines_cons]
  cases (LineForm.of raw).behind defined with
  | error e => simp only [reduceCtorEq, false_and, exists_false]
  | ok p =>
    obtain ⟨added, defined'⟩ := p
    dsimp only
    rw [bind_eq_ok_iff]
    constructor
    · rintro ⟨others, hothers, h⟩
      cases h
      exact ⟨added, defined', others, rfl, hothers, rfl⟩
    · rintro ⟨_, _, others, hsame, hothers, rfl⟩
      cases hsame
      exact ⟨others, hothers, rfl⟩

/-- **Lines are refused** if the first one is, or one of the others behind it. -/
theorem assembleLines_cons_eq_error_iff {e : AssemblyError} :
    assembleLines number defined (raw :: rest) = .error e ↔
      (∃ cause, (LineForm.of raw).behind defined = .error cause ∧ e = ⟨number, cause⟩) ∨
        ∃ added defined', (LineForm.of raw).behind defined = .ok (added, defined') ∧
          assembleLines (number + 1) defined' rest = .error e := by
  rw [assembleLines_cons]
  cases (LineForm.of raw).behind defined with
  | error cause => simp [eq_comm]
  | ok p =>
    obtain ⟨added, defined'⟩ := p
    dsimp only
    rw [bind_eq_error_iff]
    constructor
    · rintro (h | ⟨_, -, h⟩)
      · exact Or.inr ⟨added, defined', rfl, h⟩
      · exact nomatch h
    · rintro (⟨_, h, -⟩ | ⟨_, _, hsame, h⟩)
      · exact nomatch h
      · cases hsame
        exact Or.inl h

/-! ## What a line adds -/

/-- **What a line adds** to the instructions, and to the labels that stand before. -/
inductive Adds (defined : List (List Char)) : List Insn → List (List Char) → Prop where
  | nothing : Adds defined [] defined
  | label {name : List Char} (hname : name ∉ defined) : Adds defined [.label (labelOf name)] (name :: defined)
  | insn {insn : Insn} (hinsn : insn.WellFormed) : Adds defined [insn] defined

theorem instruction_of_form {insn : Insn} (h : LineForm.of raw = .insn insn) :
    instruction (Text.trim (stripComment raw)) = .ok insn := by
  unfold LineForm.of at h
  dsimp only at h
  split at h
  · cases h
  split at h
  · cases h
  split at h
  · rename_i hinsn
    cases h
    exact hinsn
  · cases h

theorem adds_of_behind (h : (LineForm.of raw).behind defined = .ok (added, defined')) :
    Adds defined added defined' := by
  cases hform : LineForm.of raw with
  | blank =>
    rw [hform] at h
    cases h
    exact .nothing
  | label name =>
    rw [hform, LineForm.behind] at h
    split at h
    · cases h
    · rename_i hname
      cases h
      exact .label (mt List.contains_iff_mem.mpr hname)
  | insn insn =>
    rw [hform] at h
    cases h
    exact .insn (wellFormed_of_instruction (instruction_of_form hform))
  | refused e =>
    rw [hform] at h
    cases h

/-- **The same line behind other labels** adds the same, unless it defines one of them. -/
theorem exists_behind (h : form.behind defined = .ok (added, defined')) {other : List (List Char)}
    (hfresh : ∀ name ∈ other, labelOf name ∉ definedLabels added) :
    ∃ other', form.behind other = .ok (added, other') ∧
      ∀ name ∈ other', name ∈ other ∨ labelOf name ∈ definedLabels added := by
  cases form with
  | blank =>
    cases h
    exact ⟨other, rfl, fun _ => Or.inl⟩
  | label name =>
    rw [LineForm.behind] at h
    split at h
    · cases h
    · cases h
      have hname : name ∉ other := fun hmem => hfresh name hmem List.mem_cons_self
      refine ⟨name :: other, if_neg (mt List.contains_iff_mem.mp hname), fun name' hname' => ?_⟩
      rcases List.mem_cons.mp hname' with rfl | hmem
      · exact Or.inr List.mem_cons_self
      · exact Or.inl hmem
  | insn insn =>
    cases h
    exact ⟨other, rfl, fun _ => Or.inl⟩
  | refused e => cases h

end StackMap.Assembly
