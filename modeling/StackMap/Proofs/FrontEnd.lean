import StackMap.Proofs.Assembly.Labels
import StackMap.Proofs.ClassFile.Correspondence
import StackMap.Proofs.Code.WellFormed
import StackMap.Proofs.Flow.Label

/-!
# `Proofs.FrontEnd`: what listings and class files give

A method is written as assembly, or it is read from the code attribute of a class file. Either way it is closed:
each label that it names stands in its list of instructions, and in one place only, so that no method is refused
because of a label. And either way its instructions are well-formed, so that each of them runs on every frame of
values.

## Contents

* `Method.StandsOnce`, `Method.Closed`: closed methods.
* `Method.Produced`, `closed_of_produced`: the methods of both front ends are closed.
* `Insn.Supplied`, `wellFormed_of_supplied`: the instructions of both front ends are well-formed.
-/

namespace StackMap

open ClassFile

/-! ## Closed methods -/

/-- **A label stands exactly once** among the instructions of a method. -/
def Method.StandsOnce (m : Method) (l : Label) : Prop := ∃! i : Nat, m.insns[i]? = some (.label l)

/-- **A method is closed**, but for handlers that were there before. -/
structure Method.Closed (earlier : List TryCatch) (m : Method) : Prop where
  /-- The labels that instructions name stand exactly once. -/
  insns : ∀ insn ∈ m.insns, ∀ l ∈ insn.references, m.StandsOnce l
  /-- So do those that handlers name. -/
  handlers : ∃ added, m.tryCatch = earlier ++ added ∧ ∀ block ∈ added, ∀ l ∈ block.labels, m.StandsOnce l
  /-- Where different labels stand differs. -/
  distinct : ∀ (l l' : Label) (i i' : Nat), m.insns[i]? = some (.label l) → m.insns[i']? = some (.label l') →
    l ≠ l' → i ≠ i'

namespace Method

variable {m : Method} {l : Label}

theorem StandsOnce.mem (h : m.StandsOnce l) : Insn.label l ∈ m.insns := by
  obtain ⟨i, hi, -⟩ := h
  exact Array.mem_of_getElem? hi

theorem standsOnce_of_mem (hmem : Insn.label l ∈ m.insns)
    (hunique : ∀ i j : Nat, m.insns[i]? = some (.label l) → m.insns[j]? = some (.label l) → i = j) :
    m.StandsOnce l := by
  obtain ⟨i, hi⟩ := Array.mem_iff_getElem?.mp hmem
  exact ⟨i, hi, fun j hj => hunique j i hj hi⟩

/-- One place has one label. -/
theorem ne_of_labels_ne (m : Method) (l l' : Label) (i i' : Nat) (hi : m.insns[i]? = some (.label l))
    (hi' : m.insns[i']? = some (.label l')) (hne : l ≠ l') : i ≠ i' := by
  rintro rfl
  exact hne (Insn.label.inj (Option.some.inj (hi.symm.trans hi')))

/-- **No closed method is refused because of a label**, unless an earlier handler names one. -/
theorem Closed.exists_earlier {earlier : List TryCatch} {owner : String} {e : AnalysisError}
    (h : m.Closed earlier) (hfail : analyze owner m = .error (.failed e)) (hkind : e.kind = .unknownLabel) :
    ∃ block ∈ earlier, ∃ l ∈ block.labels, Insn.label l ∉ m.insns := by
  obtain ⟨l, hnames, hmissing⟩ := Flow.exists_missing_label hfail hkind
  obtain ⟨added, hadded, hhandlers⟩ := h.handlers
  rcases hnames with ⟨block, hblock, hl⟩ | ⟨insn, hinsn, hl⟩
  · rcases List.mem_append.mp (hadded ▸ hblock) with hblock | hblock
    · exact ⟨block, hblock, l, hl, hmissing⟩
    · exact absurd (hhandlers block hblock l hl).mem hmissing
  · exact absurd (h.insns insn hinsn l hl).mem hmissing

end Method

/-! ## The methods of listings -/

theorem MethodListing.closed_of_method {listing : MethodListing} {m : Method} (h : listing.method = .ok m) :
    m.Closed [] := by
  obtain ⟨hinsns, hhandlers⟩ := MethodListing.method_outcome h
  obtain ⟨hassembled, hused⟩ := Assembly.assemble_outcome hinsns
  have honce : ∀ l ∈ Assembly.definedLabels m.insns.toList, m.StandsOnce l := by
    intro l hl
    refine Method.standsOnce_of_mem (Array.mem_toList_iff.mp (Assembly.mem_definedLabels_iff.mp hl)) ?_
    intro i j hi hj
    rw [← Array.getElem?_toList] at hi hj
    exact Assembly.index_unique_of_nodup hassembled.nodup.1 hi hj
  refine ⟨fun insn hinsn l hl => ?_, ⟨m.tryCatch, rfl, fun block hblock l hl => ?_⟩, m.ne_of_labels_ne⟩
  · exact honce l (hused insn (Array.mem_toList_iff.mpr hinsn) l hl)
  · exact honce l (hhandlers block hblock l hl)

/-! ## The methods of class files -/

namespace ClassFile.CodeData

variable {pool : Pool} {block : Nat} {a : CodeData} {pieces : List Piece} {m : Method}

/-- The label of an offset that is referred to stands exactly once. -/
theorem standsOnce_labelAt (hm : m.insns = #[]) (h : a.Accepted pool pieces) {r : Int}
    (hr : r ∈ a.refs pieces) : (a.into block pieces m).StandsOnce (labelAt block r) := by
  have hinsns : (a.into block pieces m).insns.toList = (a.lines pieces).map (·.insn block) := insns_into hm
  obtain ⟨offset, rfl, hmark⟩ := mark_mem_lines h hr
  refine Method.standsOnce_of_mem ?_ fun i j => stands_once hinsns (sorted_lines h)
  rw [← Array.mem_toList_iff, hinsns]
  exact List.mem_map_of_mem (f := (·.insn block)) hmark

/-- What an instruction names are labels of offsets that are referred to. -/
theorem exists_ref_of_reference {insn : Insn} (hinsn : insn ∈ (a.lines pieces).map (·.insn block)) {l : Label}
    (hl : l ∈ insn.references) : ∃ r ∈ a.refs pieces, l = labelAt block r := by
  obtain ⟨line, hline, rfl⟩ := List.mem_map.mp hinsn
  cases line with
  | mark offset => exact nomatch hl
  | code p =>
    have hp : p ∈ pieces := code_mem_linesOf_iff.mp hline
    have hreferences : ((Line.code p).insn block).references = _ := Draft.references_insn _ p.draft
    rw [hreferences] at hl
    obtain ⟨distance, hdistance, rfl⟩ := List.mem_map.mp hl
    refine ⟨p.offset + distance, List.mem_append_left _ (List.mem_flatMap.mpr ⟨p, hp, ?_⟩), rfl⟩
    exact List.mem_map_of_mem hdistance

theorem closed_into (hm : m.insns = #[]) (h : a.Accepted pool pieces) :
    (a.into block pieces m).Closed m.tryCatch := by
  refine ⟨fun insn hinsn l hl => ?_, ⟨_, rfl, fun handler hhandler l hl => ?_⟩, Method.ne_of_labels_ne _⟩
  · rw [← Array.mem_toList_iff, insns_into hm] at hinsn
    obtain ⟨r, hr, rfl⟩ := exists_ref_of_reference hinsn hl
    exact standsOnce_labelAt hm h hr
  · obtain ⟨row, hrow, rfl⟩ := List.mem_map.mp hhandler
    have hlabels : (row.1.tryCatch block row.2).labels = row.1.targets.map (labelAt block) := rfl
    rw [hlabels] at hl
    obtain ⟨r, hr, rfl⟩ := List.mem_map.mp hl
    exact standsOnce_labelAt hm h (List.mem_append_right _ (List.mem_flatMap.mpr ⟨row, hrow, hr⟩))

end ClassFile.CodeData

/-! ## Both -/

/-- **The methods of both front ends**, with the handlers that were there before. -/
inductive Method.Produced : List TryCatch → Method → Prop where
  /-- A listing is written from nothing. -/
  | listing {l : MethodListing} {m : Method} (h : l.method = .ok m) : Produced [] m
  /-- Code is read into a method without instructions. -/
  | code {pool : Pool} {block : Nat} {data : List UInt8} {m m' : Method} (hm : m.insns = #[])
    (h : (readCode pool block m).runOn data = .ok m') : Produced m.tryCatch m'

/-- **The methods of both front ends are closed.** If the analysis of one is refused because of a label, the label
is one that an earlier handler names; without earlier handlers it is never refused for that. -/
theorem closed_of_produced {earlier : List TryCatch} {m : Method} (h : m.Produced earlier) :
    m.Closed earlier ∧
      (∀ owner e, analyze owner m = .error (.failed e) → e.kind = .unknownLabel →
        ∃ block ∈ earlier, ∃ l ∈ block.labels, Insn.label l ∉ m.insns) ∧
      (earlier = [] → ∀ owner e, analyze owner m = .error (.failed e) → e.kind ≠ .unknownLabel) := by
  have hclosed : m.Closed earlier := by
    cases h with
    | listing h => exact MethodListing.closed_of_method h
    | code hm h =>
      obtain ⟨a, pieces, rest, -, haccepted, rfl⟩ := readCode_eq_ok_iff.mp h
      exact a.closed_into hm haccepted
  refine ⟨hclosed, fun owner e => hclosed.exists_earlier, ?_⟩
  rintro rfl owner e hfail hkind
  obtain ⟨block, hblock, -⟩ := hclosed.exists_earlier hfail hkind
  exact nomatch hblock

/-- A listing with a switch back to its start, and a handler. -/
def retrying : MethodListing where
  owner := "C"
  name := "f"
  desc := "(I)V"
  access := ["static"]
  maxStack := none
  maxLocals := none
  code := "again:\niload_0\nlookupswitch done 1:again\ndone:\nreturn"
  tryCatch := [⟨"again", "done", "done", ""⟩]

theorem method_retrying : ∃ m, retrying.method = .ok m ∧
    m.insns.toList.map Insn.text = ["again:", "iload 0", "lookupswitch [1]", "done:", "return"] :=
  exists_of_map_toOption (by decide +kernel)

theorem closed_of_produced_retrying :
    (∃ m, retrying.method = .ok m ∧
      m.insns.toList.map Insn.text = ["again:", "iload 0", "lookupswitch [1]", "done:", "return"] ∧
      m.Closed [] ∧ ∀ owner e, analyze owner m = .error (.failed e) → e.kind ≠ .unknownLabel) ∧
    (readCode ⟨#[], []⟩ 0 blankMethod).runOn guardedLoop = .ok guardedLoopMethod ∧
      guardedLoopMethod.Closed [] ∧
        ∀ owner e, analyze owner guardedLoopMethod = .error (.failed e) → e.kind ≠ .unknownLabel := by
  constructor
  · obtain ⟨m, hm, htexts⟩ := method_retrying
    obtain ⟨hclosed, -, hknown⟩ := closed_of_produced (.listing hm)
    exact ⟨m, hm, htexts, hclosed, hknown rfl⟩
  · obtain ⟨hclosed, -, hknown⟩ := closed_of_produced (.code rfl readCode_guardedLoop)
    exact ⟨readCode_guardedLoop, hclosed, hknown rfl⟩

/-! ## Instructions -/

/-- **The instructions of both front ends.** -/
inductive Insn.Supplied : Insn → Prop where
  /-- An instruction of a text that is accepted. -/
  | text {text : String} {insns : List Insn} {insn : Insn} (h : Assembly.assemble text = .ok insns)
    (hinsn : insn ∈ insns) : Supplied insn
  /-- An instruction of a code array, which is behind those that the method had before. -/
  | code {pool : Pool} {block i : Nat} {data : List UInt8} {m m' : Method} {insn : Insn}
    (h : (readCode pool block m).runOn data = .ok m') (hi : m.insns.size ≤ i)
    (hinsn : m'.insns[i]? = some insn) : Supplied insn

/-- What is behind the instructions that were there before are labels and instructions of pieces. -/
theorem ClassFile.CodeData.exists_piece_of_added {pool : Pool} {block i : Nat} {a : CodeData}
    {pieces : List Piece} {m : Method} {insn : Insn} (h : a.Accepted pool pieces) (hi : m.insns.size ≤ i)
    (hinsn : (a.into block pieces m).insns[i]? = some insn) (hkind : insn.kind ≠ .label) :
    ∃ p ∈ pieces, Encodes pool p.offset p.bytes p.draft ∧ insn = p.insn block := by
  have hadded : ((a.lines pieces).map (·.insn block))[i - m.insns.size]? = some insn := by
    rw [← hinsn, ← Array.getElem?_toList]
    show _ = (m.insns ++ (a.lines pieces).map (·.insn block)).toList[i]?
    rw [Array.toList_appendList, List.getElem?_append_right hi]
    rfl
  obtain ⟨line, hline, rfl⟩ := List.mem_map.mp (List.mem_of_getElem? hadded)
  cases line with
  | mark offset => exact absurd rfl hkind
  | code p =>
    have hp := code_mem_linesOf_iff.mp hline
    exact ⟨p, hp, h.tiled.encodes p hp, rfl⟩

/-- **The instructions of both front ends are well-formed**, so that each of them runs on every frame of values,
whatever it comes to, but for the load from an array that has no component. -/
theorem wellFormed_of_supplied {insn : Insn} (h : insn.Supplied) (hkind : insn.kind ≠ .label) :
    insn.WellFormed ∧ ∀ (f : Frame) (fault : Fault), (f.Each fun v => v.isSome) →
      f.execute insn = .error (.fault fault) → fault = .type .endOfText := by
  have hwf : insn.WellFormed := by
    cases h with
    | text h hinsn => exact (Assembly.assemble_outcome h).1.wellFormed hinsn hkind
    | code h hi hinsn =>
      obtain ⟨a, pieces, rest, -, haccepted, rfl⟩ := readCode_eq_ok_iff.mp h
      obtain ⟨p, -, hencodes, rfl⟩ := CodeData.exists_piece_of_added haccepted hi hinsn hkind
      exact hencodes.wellFormed _
  exact ⟨hwf, fun f fault hf hfault => hwf.fault_eq hf hfault⟩

/-- A switch whose range ends where the numbers of 32 bits end. -/
def extremeSwitch : String := "a:\ntableswitch 2147483646 a a a"

theorem assemble_extremeSwitch : ∃ insns, Assembly.assemble extremeSwitch = .ok insns ∧
    insns.map Insn.text = ["a:", "tableswitch 2147483646..2147483647"] :=
  exists_of_map_toOption (by decide +kernel)

theorem wellFormed_of_supplied_extremeSwitch :
    (∃ insns, Assembly.assemble extremeSwitch = .ok insns ∧
      insns.map Insn.text = ["a:", "tableswitch 2147483646..2147483647"] ∧
      ∀ insn ∈ insns, insn.kind ≠ .label → insn.WellFormed) ∧
    (readCode ⟨#[], []⟩ 0 blankMethod).runOn guardedLoop = .ok guardedLoopMethod ∧
      guardedLoopMethod.insns[3]? = some (.jump .goto ⟨"L0", 0⟩) ∧
      (Insn.jump .goto ⟨"L0", 0⟩).WellFormed ∧
      ∀ (f : Frame) (fault : Fault), (f.Each fun v => v.isSome) →
        f.execute (.jump .goto ⟨"L0", 0⟩) = .error (.fault fault) → fault = .type .endOfText := by
  constructor
  · obtain ⟨insns, hinsns, htexts⟩ := assemble_extremeSwitch
    exact ⟨insns, hinsns, htexts, fun insn hinsn hkind => (wellFormed_of_supplied (.text hinsns hinsn) hkind).1⟩
  · have hinsn : guardedLoopMethod.insns[3]? = some (.jump .goto ⟨"L0", 0⟩) := rfl
    have hsupplied : (Insn.jump .goto ⟨"L0", 0⟩).Supplied :=
      .code readCode_guardedLoop (Nat.zero_le _) hinsn
    exact ⟨readCode_guardedLoop, hinsn, wellFormed_of_supplied hsupplied nofun⟩

end StackMap
