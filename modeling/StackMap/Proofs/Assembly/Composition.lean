import StackMap.Proofs.Assembly.Labels
import StackMap.Proofs.Text.Words

/-!
# `Proofs.Assembly.Composition`: texts in parts

What a line becomes depends on the lines before it only through the labels that they define. So two texts with a
line feed between them become what each becomes alone, if no label is defined in both. Each use of a label then leads
to its own part, where the label stands, and stands in one place. And a line that is refused is refused whatever
comes behind it. Only uses of labels that are defined nowhere are found at the end.

## Contents

* `exists_assembleLines`, `exists_assembleLines_append`: lines behind other labels, and behind other lines.
* `line_bounds`, `assembleLines_eq_error_of_take`: the line that is refused.
* `assemble_append`, `assemble_eq_error_of_take`: the same for texts.
* `StandsOnlyAt`: where a label stands.
* `assemble_compositional`: texts in parts.
-/

namespace StackMap.Assembly

open Text (lines)

variable {number number' : Nat} {defined defined' : List (List Char)} {front back : List (List Char)}
  {numbered : List Numbered}

/-- The instructions of numbered ones. -/
abbrev insnsOf (numbered : List Numbered) : List Insn := numbered.map (·.insn)

theorem insnsOf_append_map (added : List Insn) (others : List Numbered) :
    insnsOf (added.map (Numbered.mk number) ++ others) = added ++ insnsOf others := by
  unfold insnsOf
  rw [List.map_append, List.map_map]
  exact congrArg (· ++ insnsOf others) (List.map_id added)

/-! ## Lines that are accepted -/

/-- **Lines behind other labels** become the same, if they define none of them. By induction on the lines: the
labels of those before are new to the others, for none is defined twice. -/
theorem exists_assembleLines (number' : Nat) (h : assembleLines number defined back = .ok numbered)
    (hfresh : ∀ name ∈ defined', labelOf name ∉ definedLabels (insnsOf numbered)) :
    ∃ renumbered, assembleLines number' defined' back = .ok renumbered ∧
      insnsOf renumbered = insnsOf numbered := by
  induction back generalizing number number' defined defined' numbered with
  | nil =>
    cases h
    exact ⟨[], rfl, rfl⟩
  | cons raw back ih =>
    have hnodup : (definedLabels (insnsOf numbered)).Nodup := (assembled_of_assembleLines h).nodup.1
    obtain ⟨added, behind, others, hline, hothers, rfl⟩ := assembleLines_cons_eq_ok_iff.mp h
    rw [insnsOf_append_map, definedLabels_append] at hnodup hfresh
    have hdisjoint := (List.nodup_append'.mp hnodup).2.2
    obtain ⟨behind', hline', hbehind'⟩ := exists_behind hline fun name hname hmem =>
      hfresh name hname (List.mem_append_left _ hmem)
    have hfresh' : ∀ name ∈ behind', labelOf name ∉ definedLabels (insnsOf others) := by
      intro name hname hmem
      rcases hbehind' name hname with hbefore | hadded
      · exact hfresh name hbefore (List.mem_append_right _ hmem)
      · exact hdisjoint hadded hmem
    obtain ⟨renumbered, hrenumbered, hinsns⟩ := ih (number' + 1) hothers hfresh'
    refine ⟨added.map (Numbered.mk number') ++ renumbered, ?_, ?_⟩
    · exact assembleLines_cons_eq_ok_iff.mpr ⟨added, behind', renumbered, hline', hrenumbered, rfl⟩
    · rw [insnsOf_append_map, insnsOf_append_map, hinsns]

/-- **Lines behind other lines** become the same, if they define none of their labels, nor of those before. By
induction on the lines in front: each adds its own label to those before. -/
theorem exists_assembleLines_append {numbered' : List Numbered}
    (hfront : assembleLines number defined front = .ok numbered)
    (hback : assembleLines number' defined' back = .ok numbered')
    (hfresh : ∀ name ∈ defined, labelOf name ∉ definedLabels (insnsOf numbered'))
    (hdisjoint : (definedLabels (insnsOf numbered)).Disjoint (definedLabels (insnsOf numbered'))) :
    ∃ all, assembleLines number defined (front ++ back) = .ok all ∧
      insnsOf all = insnsOf numbered ++ insnsOf numbered' := by
  induction front generalizing number defined numbered with
  | nil =>
    cases hfront
    exact exists_assembleLines number hback hfresh
  | cons raw front ih =>
    obtain ⟨added, behind, others, hline, hothers, rfl⟩ := assembleLines_cons_eq_ok_iff.mp hfront
    rw [insnsOf_append_map, definedLabels_append, List.disjoint_append_left] at hdisjoint
    obtain ⟨hadded, hrest⟩ := hdisjoint
    have hfresh' : ∀ name ∈ behind, labelOf name ∉ definedLabels (insnsOf numbered') := by
      cases adds_of_behind hline with
      | nothing => exact hfresh
      | insn _ => exact hfresh
      | label _ =>
        intro name hname
        rcases List.mem_cons.mp hname with rfl | hname
        · exact fun hmem => hadded List.mem_cons_self hmem
        · exact hfresh name hname
    obtain ⟨all, hall, hinsns⟩ := ih hothers hfresh' hrest
    refine ⟨added.map (Numbered.mk number) ++ all, ?_, ?_⟩
    · exact assembleLines_cons_eq_ok_iff.mpr ⟨added, behind, all, hline, hall, rfl⟩
    · rw [insnsOf_append_map, insnsOf_append_map, hinsns, List.append_assoc]

/-! ## The line that is refused -/

section Refused

variable {e : AssemblyError} {all : List (List Char)}

/-- The line that is refused is one of the lines. -/
theorem line_bounds (h : assembleLines number defined all = .error e) :
    number ≤ e.line ∧ e.line < number + all.length := by
  induction all generalizing number defined with
  | nil => cases h
  | cons raw rest ih =>
    rw [List.length_cons]
    rcases assembleLines_cons_eq_error_iff.mp h with ⟨cause, -, rfl⟩ | ⟨added, behind, -, hrest⟩
    · exact ⟨Nat.le_refl number, by simp⟩
    · have hbounds := ih hrest
      omega

/-- **A line is refused whatever comes behind it.** By induction on the lines up to it. -/
theorem assembleLines_eq_error_of_take {all' : List (List Char)}
    (h : assembleLines number defined all = .error e)
    (hsame : all'.take (e.line + 1 - number) = all.take (e.line + 1 - number)) :
    assembleLines number defined all' = .error e := by
  induction all generalizing number defined all' with
  | nil => cases h
  | cons raw rest ih =>
    have hbounds := line_bounds h
    obtain ⟨k, hk⟩ : ∃ k, e.line + 1 - number = k + 1 := ⟨e.line - number, by omega⟩
    rw [hk, List.take_succ_cons] at hsame
    -- The other lines start with the same one.
    cases all' with
    | nil => cases hsame
    | cons raw' rest' =>
      rw [List.take_succ_cons] at hsame
      obtain ⟨rfl, hrest'⟩ := List.cons.inj hsame
      apply assembleLines_cons_eq_error_iff.mpr
      rcases assembleLines_cons_eq_error_iff.mp h with hline | ⟨added, behind, hline, hrest⟩
      · exact Or.inl hline
      · have hk' : e.line + 1 - (number + 1) = k := by omega
        exact Or.inr ⟨added, behind, hline, ih hrest (hk' ▸ hrest')⟩

end Refused

/-! ## Texts -/

section Texts

variable {a b text text' : String} {as bs : List Insn} {e : AssemblyError}

/-- **Two texts with a line feed between them** become what both become, if no label is defined in both. -/
theorem assemble_append (ha : assemble a = .ok as) (hb : assemble b = .ok bs)
    (hdisjoint : (definedLabels as).Disjoint (definedLabels bs)) :
    assemble (a ++ "\n" ++ b) = .ok (as ++ bs) := by
  obtain ⟨front, hfront, rfl, hclosed⟩ := assemble_eq_ok_iff.mp ha
  obtain ⟨back, hback, rfl, hclosed'⟩ := assemble_eq_ok_iff.mp hb
  have hlines : lines (a ++ "\n" ++ b).toList = lines a.toList ++ lines b.toList := by
    rw [String.toList_append, String.toList_append, List.append_assoc]
    exact Text.lines_append a.toList b.toList
  have hfresh : ∀ name ∈ ([] : List (List Char)), labelOf name ∉ definedLabels (insnsOf back) :=
    fun _ hname => absurd hname List.not_mem_nil
  obtain ⟨all, hall, hinsns⟩ := exists_assembleLines_append hfront hback hfresh hdisjoint
  refine assemble_eq_ok_iff.mpr ⟨all, hlines ▸ hall, hinsns, ?_⟩
  intro insn hinsn l hl
  rw [definedLabels_append, List.mem_append]
  rcases List.mem_append.mp hinsn with hinsn | hinsn
  · exact Or.inl (hclosed insn hinsn l hl)
  · exact Or.inr (hclosed' insn hinsn l hl)

/-- A text is refused for one of its lines, or for the use of a label. -/
theorem assemble_eq_error_cases (h : assemble text = .error e) :
    assembleLines 1 [] (lines text.toList) = .error e ∨ ∃ name, e.error = .undefinedLabel name := by
  unfold assemble at h
  rcases bind_eq_error_iff.mp h with h | ⟨numbered, -, h⟩
  · exact Or.inl h
  · split at h
    · cases h
      exact Or.inr ⟨_, rfl⟩
    · cases h

/-- **A text that is refused for one of its lines** is so whatever comes behind that line. -/
theorem assemble_eq_error_of_take (h : assembleLines 1 [] (lines text.toList) = .error e)
    (hsame : (lines text'.toList).take e.line = (lines text.toList).take e.line) :
    assemble text' = .error e := by
  have hlines : assembleLines 1 [] (lines text'.toList) = .error e :=
    assembleLines_eq_error_of_take h hsame
  unfold assemble
  rw [hlines]
  rfl

/-- **A label stands in one place** of a list. -/
def StandsOnlyAt (insns : List Insn) (l : Label) (i : Nat) : Prop := ∀ j, insns[j]? = some (.label l) ↔ j = i

theorem standsOnlyAt_of_nodup {insns : List Insn} {l : Label} {i : Nat} (h : (definedLabels insns).Nodup)
    (hi : insns[i]? = some (.label l)) : StandsOnlyAt insns l i := by
  intro j
  constructor
  · exact fun hj => index_unique_of_nodup h hj hi
  · rintro rfl
    exact hi

/-- **Assembly is compositional.** Two texts that are accepted, and define no label both, are accepted with a line
feed between them. They become the instructions of the first and those of the second, and each label that an
instruction names stands in one place, in the part of the instruction. And a text that is refused, but not for the
use of a label that is defined nowhere, is refused for one of its lines, and so is every text that is the same up to
this line. -/
theorem assemble_compositional :
    (∀ (a b : String) (as bs : List Insn), assemble a = .ok as → assemble b = .ok bs →
      (definedLabels as).Disjoint (definedLabels bs) →
        assemble (a ++ "\n" ++ b) = .ok (as ++ bs) ∧
        (∀ insn ∈ as, ∀ l ∈ insn.references,
          ∃ i, as[i]? = some (.label l) ∧ StandsOnlyAt (as ++ bs) l i) ∧
        ∀ insn ∈ bs, ∀ l ∈ insn.references,
          ∃ i, bs[i]? = some (.label l) ∧ StandsOnlyAt (as ++ bs) l (as.length + i)) ∧
    ∀ (text : String) (e : AssemblyError), assemble text = .error e →
      (∀ name, e.error ≠ .undefinedLabel name) →
        1 ≤ e.line ∧ e.line ≤ (lines text.toList).length ∧
        ∀ text' : String, (lines text'.toList).take e.line = (lines text.toList).take e.line →
          assemble text' = .error e := by
  constructor
  · intro a b as bs ha hb hdisjoint
    have hall : assemble (a ++ "\n" ++ b) = .ok (as ++ bs) := assemble_append ha hb hdisjoint
    have hnodup : (definedLabels (as ++ bs)).Nodup := (assemble_outcome hall).1.nodup.1
    refine ⟨hall, fun insn hinsn l hl => ?_, fun insn hinsn l hl => ?_⟩
    · have hdefined := mem_definedLabels_iff.mp ((assemble_outcome ha).2 insn hinsn l hl)
      obtain ⟨i, hi⟩ := List.mem_iff_getElem?.mp hdefined
      refine ⟨i, hi, standsOnlyAt_of_nodup hnodup ?_⟩
      have hlt : i < as.length := (List.getElem?_eq_some_iff.mp hi).1
      rwa [List.getElem?_append_left hlt]
    · have hdefined := mem_definedLabels_iff.mp ((assemble_outcome hb).2 insn hinsn l hl)
      obtain ⟨i, hi⟩ := List.mem_iff_getElem?.mp hdefined
      refine ⟨i, hi, standsOnlyAt_of_nodup hnodup ?_⟩
      rwa [List.getElem?_append_right (Nat.le_add_right _ _), Nat.add_sub_cancel_left]
  · intro text e he hother
    rcases assemble_eq_error_cases he with hlines | ⟨name, hname⟩
    · have hbounds := line_bounds hlines
      exact ⟨hbounds.1, by omega, fun text' => assemble_eq_error_of_take hlines⟩
    · exact absurd hname (hother name)

end Texts

/-! ## A jump back and a jump ahead -/

def jumpBack : String := "again:\nifeq again # for ever"

def jumpBackInsns : List Insn := [.label ⟨"again", 0⟩, .jump ⟨0x99⟩ ⟨"again", 0⟩]

def jumpAhead : String := "nop\nifeq end\n\nend:"

def jumpAheadInsns : List Insn := [.plain ⟨0⟩, .jump ⟨0x99⟩ ⟨"end", 0⟩, .label ⟨"end", 0⟩]

/-- A label that is defined twice, and another mistake behind it. -/
def twice : String := "x:\nnop\nx: # again\nnop 1"

set_option maxRecDepth 4000 in
theorem assemble_jumpBack : assemble jumpBack = .ok jumpBackInsns := by with_unfolding_all rfl

set_option maxRecDepth 4000 in
theorem assemble_jumpAhead : assemble jumpAhead = .ok jumpAheadInsns := by with_unfolding_all rfl

set_option maxRecDepth 4000 in
theorem assemble_twice : assemble twice = .error ⟨3, .duplicateLabel "x"⟩ := by with_unfolding_all rfl

theorem assemble_compositional_jumps :
    assemble (jumpBack ++ "\n" ++ jumpAhead) = .ok (jumpBackInsns ++ jumpAheadInsns) ∧
    StandsOnlyAt (jumpBackInsns ++ jumpAheadInsns) ⟨"again", 0⟩ 0 ∧
    StandsOnlyAt (jumpBackInsns ++ jumpAheadInsns) ⟨"end", 0⟩ 4 ∧
    assemble twice = .error ⟨3, .duplicateLabel "x"⟩ ∧
    assemble "x:\nnop\nx: # again\ngoto nowhere" = .error ⟨3, .duplicateLabel "x"⟩ := by
  obtain ⟨hcompose, hrefuse⟩ := assemble_compositional
  have hdisjoint : (definedLabels jumpBackInsns).Disjoint (definedLabels jumpAheadInsns) :=
    List.singleton_disjoint.mpr (by decide)
  obtain ⟨hall, hback, hahead⟩ :=
    hcompose jumpBack jumpAhead _ _ assemble_jumpBack assemble_jumpAhead hdisjoint
  obtain ⟨-, -, htwice⟩ := hrefuse twice _ assemble_twice nofun
  obtain ⟨i, -, hi⟩ := hback (.jump ⟨0x99⟩ ⟨"again", 0⟩)
    (List.mem_cons_of_mem _ List.mem_cons_self) _ List.mem_cons_self
  obtain ⟨j, -, hj⟩ := hahead (.jump ⟨0x99⟩ ⟨"end", 0⟩)
    (List.mem_cons_of_mem _ List.mem_cons_self) _ List.mem_cons_self
  -- The labels stand where they are seen to stand, and so nowhere else.
  have hfirst : 0 = i := (hi 0).mp rfl
  have hlast : 4 = jumpBackInsns.length + j := (hj 4).mp rfl
  rw [← hfirst] at hi
  rw [← hlast] at hj
  exact ⟨hall, hi, hj, assemble_twice, htwice _ (by decide +kernel)⟩

end StackMap.Assembly
