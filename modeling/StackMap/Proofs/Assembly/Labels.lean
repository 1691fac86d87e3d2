import StackMap.Listing.Basic
import StackMap.Proofs.Assembly.Lines
import StackMap.Proofs.Flow.Location

/-!
# `Proofs.Assembly.Labels`: the labels of a text

The lines of a text are gone through once, with the labels that stand before. So a label is defined in one
place, and what is not a definition is an instruction. Uses are looked up at the end, when all definitions are
known, and the labels that handlers name are looked up among them as well.

## Contents

* `Assembled`: what lines become, behind given labels.
* `Assembled.nodup`, `Assembled.wellFormed`: each label is defined once, and instructions are well-formed.
* `LabelsDefined`, `assemble_eq_ok_iff`: which texts are accepted.
* `assemble_outcome`, `MethodListing.method_outcome`: what accepted texts and listings become.
-/

namespace StackMap

namespace Assembly

variable {defined : List (List Char)} {insns : List Insn} {l : Label}

/-- **What lines become**, when the labels `defined` stand before: definitions of other labels, and
well-formed instructions. -/
inductive Assembled : List (List Char) → List Insn → Prop where
  | nil {defined : List (List Char)} : Assembled defined []
  | label {defined : List (List Char)} {name : List Char} {rest : List Insn} (hname : name ∉ defined)
    (hrest : Assembled (name :: defined) rest) : Assembled defined (.label (labelOf name) :: rest)
  | insn {defined : List (List Char)} {insn : Insn} {rest : List Insn} (hinsn : insn.WellFormed)
    (hrest : Assembled defined rest) : Assembled defined (insn :: rest)

/-- By induction on the lines; a blank line becomes nothing. -/
theorem assembled_of_assembleLines {number : Nat} {lines : List (List Char)} {numbered : List Numbered}
    (h : assembleLines number defined lines = .ok numbered) : Assembled defined (numbered.map (·.insn)) := by
  induction lines generalizing number defined numbered with
  | nil =>
    cases h
    exact .nil
  | cons raw rest ih =>
    obtain ⟨added, defined', others, hline, hrest, rfl⟩ := assembleLines_cons_eq_ok_iff.mp h
    cases adds_of_behind hline with
    | nothing => exact ih hrest
    | label hname => exact .label hname (ih hrest)
    | insn hinsn => exact .insn hinsn (ih hrest)

/-! ## Definitions -/

theorem labelOf_injective {name name' : List Char} (h : labelOf name = labelOf name') : name = name' :=
  String.ofList_injective (Label.mk.inj h).1

theorem definedLabels_cons_of_ne {insn : Insn} (h : insn.kind ≠ .label) :
    definedLabels (insn :: insns) = definedLabels insns := by
  cases insn with
  | label l => exact absurd rfl h
  | _ => rfl

theorem definedLabels_append (insns insns' : List Insn) :
    definedLabels (insns ++ insns') = definedLabels insns ++ definedLabels insns' :=
  List.filterMap_append

theorem mem_definedLabels_iff : l ∈ definedLabels insns ↔ Insn.label l ∈ insns := by
  unfold definedLabels
  rw [List.mem_filterMap]
  constructor
  · rintro ⟨insn, hmem, hlabel⟩
    split at hlabel
    · cases hlabel
      exact hmem
    · cases hlabel
  · exact fun hmem => ⟨_, hmem, rfl⟩

/-- **A label that is defined once stands in one place.** -/
theorem index_unique_of_nodup {i j : Nat} (h : (definedLabels insns).Nodup)
    (hi : insns[i]? = some (.label l)) (hj : insns[j]? = some (.label l)) : i = j := by
  induction insns generalizing i j with
  | nil => cases hi
  | cons insn insns ih =>
    have hrest : (definedLabels insns).Nodup := by
      cases insn with
      | label l' => exact (List.nodup_cons.mp h).2
      | _ => exact h
    -- If it stands first, it is not defined in the rest.
    have hfirst : ∀ k : Nat, insn = .label l → insns[k]? ≠ some (.label l) := by
      rintro k rfl hk
      exact (List.nodup_cons.mp h).1 (mem_definedLabels_iff.mpr (List.mem_of_getElem? hk))
    cases i with
    | zero =>
      cases j with
      | zero => rfl
      | succ j => exact absurd hj (hfirst j (Option.some.inj hi))
    | succ i =>
      cases j with
      | zero => exact absurd hi (hfirst i (Option.some.inj hj))
      | succ j => rw [ih hrest hi hj]

namespace Assembled

/-- **Each label is defined once**, and none of those before is defined again. By induction on the lines: a
definition adds to the labels before the rest. -/
theorem nodup (h : Assembled defined insns) :
    (definedLabels insns).Nodup ∧ ∀ name ∈ defined, labelOf name ∉ definedLabels insns := by
  induction h with
  | nil => exact ⟨.nil, fun _ _ => List.not_mem_nil⟩
  | label hname _ ih =>
    obtain ⟨hnodup, hfresh⟩ := ih
    rw [List.forall_mem_cons] at hfresh
    refine ⟨List.nodup_cons.mpr ⟨hfresh.1, hnodup⟩, fun name hdefined hmem => ?_⟩
    rcases List.mem_cons.mp hmem with hsame | hmem
    · exact hname (labelOf_injective hsame ▸ hdefined)
    · exact hfresh.2 name hdefined hmem
  | insn hinsn _ ih => rwa [definedLabels_cons_of_ne hinsn.kind_ne]

/-- **What is no definition is well-formed.** -/
theorem wellFormed (h : Assembled defined insns) {insn : Insn} (hmem : insn ∈ insns)
    (hkind : insn.kind ≠ .label) : insn.WellFormed := by
  induction h with
  | nil => exact absurd hmem List.not_mem_nil
  | label _ _ ih =>
    rcases List.mem_cons.mp hmem with rfl | hmem
    · exact absurd rfl hkind
    · exact ih hmem
  | insn hinsn _ ih =>
    rcases List.mem_cons.mp hmem with rfl | hmem
    · exact hinsn
    · exact ih hmem

end Assembled

/-! ## Uses -/

/-- **Each label that is used is defined.** -/
def LabelsDefined (insns : List Insn) : Prop :=
  ∀ insn ∈ insns, ∀ l ∈ insn.references, l ∈ definedLabels insns

theorem undefinedUse?_eq_none_iff {numbered : List Numbered} :
    undefinedUse? numbered = none ↔ LabelsDefined (numbered.map (·.insn)) := by
  unfold undefinedUse? LabelsDefined
  simp only [List.findSome?_eq_none_iff, Option.map_eq_none_iff, List.find?_eq_none, List.forall_mem_map,
    Bool.not_eq_true, Bool.not_eq_false', List.contains_iff_mem]

/-- **A text is accepted** if its lines are, and each label that they use is defined. -/
theorem assemble_eq_ok_iff {text : String} :
    assemble text = .ok insns ↔
      ∃ numbered, assembleLines 1 [] (Text.lines text.toList) = .ok numbered ∧
        numbered.map (·.insn) = insns ∧ LabelsDefined insns := by
  unfold assemble
  rw [bind_eq_ok_iff]
  constructor
  · rintro ⟨numbered, hlines, h⟩
    split at h
    · cases h
    · rename_i hused
      cases h
      exact ⟨numbered, hlines, rfl, undefinedUse?_eq_none_iff.mp hused⟩
  · rintro ⟨numbered, hlines, rfl, hused⟩
    refine ⟨numbered, hlines, ?_⟩
    rw [undefinedUse?_eq_none_iff.mpr hused]

/-- **What an accepted text becomes**: each label that is used is defined, no label is defined twice, and
instructions are well-formed. -/
theorem assemble_outcome {text : String} (h : assemble text = .ok insns) :
    Assembled [] insns ∧ LabelsDefined insns := by
  obtain ⟨numbered, hlines, rfl, hused⟩ := assemble_eq_ok_iff.mp h
  exact ⟨assembled_of_assembleLines hlines, hused⟩

end Assembly

namespace MethodListing

open Assembly

theorem labelNamed_eq_ok {insns : List Insn} {name : String} {l : Label}
    (h : labelNamed insns name = .ok l) : l ∈ definedLabels insns := by
  unfold labelNamed at h
  dsimp only at h
  split at h
  · rename_i hdefined
    cases h
    exact List.contains_iff_mem.mp hdefined
  · cases h

/-- The labels of a handler are defined. -/
theorem handlerOf_eq_ok {insns : List Insn} {listing : HandlerListing} {block : TryCatch}
    (h : handlerOf insns listing = .ok block) : ∀ l ∈ block.labels, l ∈ definedLabels insns := by
  obtain ⟨start, hstart, h⟩ := bind_eq_ok_iff.mp h
  obtain ⟨stop, hstop, h⟩ := bind_eq_ok_iff.mp h
  obtain ⟨handler, hhandler, h⟩ := bind_eq_ok_iff.mp h
  cases h
  simp only [TryCatch.labels, List.forall_mem_cons]
  exact ⟨labelNamed_eq_ok hstart, labelNamed_eq_ok hstop, labelNamed_eq_ok hhandler, nofun⟩

/-- **What an accepted listing becomes**: the instructions of its text, with handlers whose labels are
defined. -/
theorem method_outcome {listing : MethodListing} {m : Method} (h : listing.method = .ok m) :
    assemble listing.code = .ok m.insns.toList ∧
      ∀ block ∈ m.tryCatch, ∀ l ∈ block.labels, l ∈ definedLabels m.insns.toList := by
  obtain ⟨access, -, h⟩ := bind_eq_ok_iff.mp h
  obtain ⟨t, -, h⟩ := bind_eq_ok_iff.mp h
  obtain ⟨insns, hinsns, h⟩ := bind_eq_ok_iff.mp h
  obtain ⟨tryCatch, htryCatch, h⟩ := bind_eq_ok_iff.mp h
  cases h
  refine ⟨mapError_eq_ok_iff.mp hinsns, fun block hblock => ?_⟩
  obtain ⟨handler, -, hhandler⟩ := exists_of_mem_mapM htryCatch hblock
  exact handlerOf_eq_ok hhandler

end MethodListing

end StackMap
