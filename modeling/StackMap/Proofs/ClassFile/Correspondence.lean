import StackMap.Proofs.ClassFile.CodeArray

/-!
# `Proofs.ClassFile.Correspondence`: offsets and indices

The analysis works on indices in the list of instructions, and a code array on offsets of bytes. Reading the
body of a method keeps the order: the position of the label of an offset is before an instruction if and only
if the offset is not behind it. So the range of an exception handler guards the same instructions, by offset
and by index.

## Contents

* `lt_iff_key_lt`, `position?_mark_iff`: lines in order, and the positions of their labels.
* `Correspondence`, `offsets_correspond`: how offsets and indices correspond.
-/

namespace StackMap.ClassFile

variable {pool : Pool} {block : Nat} {m m' : Method}

/-! ## The positions of labels -/

section

variable {lines : List Line} {i j : Nat}

/-- **Lines are ordered by their keys.** -/
theorem lt_iff_key_lt (hsorted : lines.Pairwise fun a b => a.key < b.key) {a b : Line}
    (hi : lines[i]? = some a) (hj : lines[j]? = some b) : i < j ↔ a.key < b.key := by
  obtain ⟨hilt, rfl⟩ := List.getElem?_eq_some_iff.mp hi
  obtain ⟨hjlt, rfl⟩ := List.getElem?_eq_some_iff.mp hj
  have hkeys := List.pairwise_iff_getElem.mp hsorted
  constructor
  · exact hkeys i j hilt hjlt
  · intro hkey
    rcases Nat.lt_trichotomy i j with hij | rfl | hji
    · exact hij
    · exact absurd hkey (Nat.lt_irrefl _)
    · exact absurd (hkeys j i hjlt hilt hji) (Nat.lt_asymm hkey)

/-- No line is there twice. -/
theorem index_unique (hsorted : lines.Pairwise fun a b => a.key < b.key) {a : Line}
    (hi : lines[i]? = some a) (hj : lines[j]? = some a) : i = j := by
  have hij := lt_iff_key_lt hsorted hi hj
  have hji := lt_iff_key_lt hsorted hj hi
  omega

variable (hinsns : m.insns.toList = lines.map (·.insn block))

include hinsns

theorem getElem?_insns : m.insns[i]? = lines[i]?.map (·.insn block) := by
  rw [← Array.getElem?_toList, hinsns, List.getElem?_map]

/-- **Labels are on the lines of marks.** -/
theorem stands_iff_mark {l : Label} :
    m.insns[i]? = some (.label l) ↔ ∃ offset : Nat, lines[i]? = some (.mark offset) ∧
      l = labelAt block offset := by
  rw [getElem?_insns hinsns]
  cases hline : lines[i]? with
  | none => simp only [Option.map_none, reduceCtorEq, false_and, exists_false]
  | some line =>
    cases line with
    | mark offset =>
      simp only [Option.map_some, Line.insn, Option.some.injEq, Insn.label.injEq, Line.mark.injEq]
      constructor
      · rintro rfl
        exact ⟨offset, rfl, rfl⟩
      · rintro ⟨_, rfl, rfl⟩
        rfl
    | code p =>
      have hne : p.insn block ≠ .label l := by
        intro h
        exact p.kind_insn_ne block (congrArg Insn.kind h)
      simp only [Option.map_some, Line.insn, Option.some.injEq, hne, reduceCtorEq, false_and,
        exists_false]

/-- **The label of an offset** stands where the offset is marked, and nowhere else. -/
theorem stands_labelAt_iff {offset : Nat} :
    m.insns[i]? = some (.label (labelAt block offset)) ↔ lines[i]? = some (.mark offset) := by
  rw [stands_iff_mark hinsns]
  constructor
  · rintro ⟨offset', hline, hlabel⟩
    rw [hline, Int.ofNat_inj.mp (labelAt_injective hlabel)]
  · exact fun hline => ⟨offset, hline, rfl⟩

/-- **A label stands once.** -/
theorem stands_once (hsorted : lines.Pairwise fun a b => a.key < b.key) {l : Label}
    (hi : m.insns[i]? = some (.label l)) (hj : m.insns[j]? = some (.label l)) : i = j := by
  obtain ⟨offset, hline, rfl⟩ := (stands_iff_mark hinsns).mp hi
  exact index_unique hsorted hline ((stands_labelAt_iff hinsns).mp hj)

/-- **The position of the label of an offset** is the line on which the offset is marked. -/
theorem position?_mark_iff (hsorted : lines.Pairwise fun a b => a.key < b.key) {offset : Nat} :
    m.position? (labelAt block offset) = some i ↔ lines[i]? = some (.mark offset) := by
  rw [Method.position?_eq_some_iff_of_once fun i j => stands_once hinsns hsorted]
  exact stands_labelAt_iff hinsns

end

/-! ## The correspondence -/

/-- **How offsets and indices correspond** in a method that has been read from a code attribute. -/
structure Correspondence (pool : Pool) (block : Nat) (a : CodeData) (pieces : List Piece)
    (lines : List Line) (m m' : Method) : Prop where
  /-- The pieces follow each other from the start of the code array to its end. -/
  tiled : Tiled pool 0 pieces a.code.length
  /-- Together they are the code array. -/
  bytes : pieces.flatMap (·.bytes) = a.code
  /-- Their offsets grow, and none of them reaches into the next one. -/
  disjoint : pieces.Pairwise fun p q => p.offset < p.stop ∧ p.stop ≤ q.offset
  /-- The instructions are what the lines hold. -/
  insns : m'.insns.toList = lines.map (·.insn block)
  /-- Those that are no labels are the instructions of the pieces, in order. -/
  code : m'.insns.toList.filter (·.kind ≠ .label) = pieces.map (·.insn block)
  /-- The lines of pieces are in order, too. -/
  order : lines.filterMap Line.piece? = pieces
  /-- A label stands directly before the instruction at its offset, or last. -/
  label : ∀ (i offset : Nat), lines[i]? = some (.mark offset) →
    (∃ p, lines[i + 1]? = some (.code p) ∧ p.offset = offset) ∨
      offset = a.code.length ∧ i + 1 = lines.length
  /-- Its position is where it stands. -/
  position : ∀ i offset : Nat,
    m'.position? (labelAt block offset) = some i ↔ lines[i]? = some (.mark offset)
  /-- A distance that an instruction refers to leads to an offset with a label. -/
  target : ∀ p ∈ pieces, ∀ distance ∈ p.draft.targets, ∃ offset i : Nat,
    p.offset + distance = (offset : Int) ∧ m'.position? (labelAt block offset) = some i
  /-- There is a handler for each row of the exception table. -/
  tryCatch : m'.tryCatch = m.tryCatch ++ a.rows.map fun r => r.1.tryCatch block r.2
  /-- A row guards the same instructions by offset and by index. -/
  guards : ∀ r ∈ a.rows, ∃ start stop : Nat,
    m'.position? (r.1.tryCatch block r.2).start = some start ∧
    m'.position? (r.1.tryCatch block r.2).stop = some stop ∧
    ∀ (i : Nat) (p : Piece), lines[i]? = some (.code p) →
      (start ≤ i ∧ i < stop ↔ r.1.start.toNat ≤ p.offset ∧ p.offset < r.1.stop.toNat)

namespace CodeData

variable {a : CodeData} {pieces : List Piece}

theorem sorted_lines (h : a.Accepted pool pieces) :
    (a.lines pieces).Pairwise fun x y => x.key < y.key := sorted_linesOf h.tiled

theorem insns_into (hm : m.insns = #[]) :
    (a.into block pieces m).insns.toList = (a.lines pieces).map (·.insn block) := by
  show (m.insns ++ (a.lines pieces).map (·.insn block)).toList = _
  rw [hm, Array.toList_appendList, List.nil_append]

/-- **Everything that is referred to is marked.** -/
theorem mark_mem_lines (h : a.Accepted pool pieces) {r : Int} (hr : r ∈ a.refs pieces) :
    ∃ offset : Nat, r = offset ∧ Line.mark offset ∈ a.lines pieces := by
  obtain ⟨offset, rfl, hoffset⟩ := h.refs r hr
  exact ⟨offset, rfl, mark_mem_linesOf_iff.mpr ⟨hr, hoffset⟩⟩

theorem filter_insns (block : Nat) (lines : List Line) :
    (lines.map (·.insn block)).filter (·.kind ≠ .label) =
      (lines.filterMap Line.piece?).map (·.insn block) := by
  induction lines with
  | nil => rfl
  | cons line lines ih =>
    cases line with
    | mark offset => exact ih
    | code p =>
      have hkind : ((Line.code p).insn block).kind ≠ .label := p.kind_insn_ne block
      rw [List.map_cons, List.filter_cons_of_pos (p := fun insn : Insn => decide (insn.kind ≠ .label))
        (decide_eq_true hkind), ih]
      rfl

/-- **A row guards the same instructions** by offset and by index. -/
theorem guards_iff (h : a.Accepted pool pieces) {i start stop s e : Nat} {p : Piece}
    (hstart : (a.lines pieces)[start]? = some (.mark s)) (hstop : (a.lines pieces)[stop]? = some (.mark e))
    (hi : (a.lines pieces)[i]? = some (.code p)) :
    start ≤ i ∧ i < stop ↔ s ≤ p.offset ∧ p.offset < e := by
  have hlow := lt_iff_key_lt (sorted_lines h) hi hstart
  have hhigh := lt_iff_key_lt (sorted_lines h) hi hstop
  simp only [Line.key] at hlow hhigh
  omega

theorem correspondence (hm : m.insns = #[]) (h : a.Accepted pool pieces) :
    Correspondence pool block a pieces (a.lines pieces) m (a.into block pieces m) := by
  have hinsns : (a.into block pieces m).insns.toList = (a.lines pieces).map (·.insn block) := insns_into hm
  have hsorted := sorted_lines h
  have hposition : ∀ offset : Nat, Line.mark offset ∈ a.lines pieces → ∃ i : Nat,
      (a.lines pieces)[i]? = some (.mark offset) ∧
        (a.into block pieces m).position? (labelAt block offset) = some i := by
    intro offset hmark
    obtain ⟨i, hi⟩ := List.mem_iff_getElem?.mp hmark
    exact ⟨i, hi, (position?_mark_iff hinsns hsorted).mpr hi⟩
  refine ⟨h.tiled, h.code, h.tiled.disjoint, hinsns, ?_, pieces_linesOf _ _ _, fun _ _ => mark_followed,
    fun i offset => position?_mark_iff hinsns hsorted, ?_, rfl, ?_⟩
  · rw [hinsns, filter_insns]
    exact congrArg (List.map _) (pieces_linesOf _ _ _)
  · intro p hp distance hdistance
    have href : (p.offset + distance : Int) ∈ a.refs pieces := by
      refine List.mem_append_left _ (List.mem_flatMap.mpr ⟨p, hp, ?_⟩)
      exact List.mem_map_of_mem hdistance
    obtain ⟨offset, hoffset, hmark⟩ := mark_mem_lines h href
    obtain ⟨i, -, hi⟩ := hposition offset hmark
    exact ⟨offset, i, hoffset, hi⟩
  · intro r hr
    have hrefs : ∀ t ∈ r.1.targets, t ∈ a.refs pieces := fun t ht =>
      List.mem_append_right _ (List.mem_flatMap.mpr ⟨r, hr, ht⟩)
    obtain ⟨s, hs, hmarkStart⟩ := mark_mem_lines h (hrefs _ List.mem_cons_self)
    obtain ⟨e, he, hmarkStop⟩ := mark_mem_lines h (hrefs _ (List.mem_cons_of_mem _ List.mem_cons_self))
    obtain rfl := Int.ofNat_inj.mp hs
    obtain rfl := Int.ofNat_inj.mp he
    obtain ⟨start, hstart, hstart'⟩ := hposition _ hmarkStart
    obtain ⟨stop, hstop, hstop'⟩ := hposition _ hmarkStop
    exact ⟨start, stop, hstart', hstop', fun i p hi => guards_iff h hstart hstop hi⟩

end CodeData

/-- **Offsets and indices correspond** whenever code is read into a method without instructions. -/
theorem offsets_correspond {data : List UInt8} (hm : m.insns = #[])
    (h : (readCode pool block m).runOn data = .ok m') :
    ∃ (a : CodeData) (pieces : List Piece) (lines : List Line) (rest : List UInt8),
      data = a.bytes ++ rest ∧ Correspondence pool block a pieces lines m m' := by
  obtain ⟨a, pieces, rest, hdata, haccepted, rfl⟩ := readCode_eq_ok_iff.mp h
  exact ⟨a, pieces, a.lines pieces, rest, hdata, a.correspondence hm haccepted⟩

/-- A code attribute: a loop in the bytes 0 to 6, and a handler for them that starts with byte 7. -/
def guardedLoop : List UInt8 :=
  [0, 1, 0, 1, 0, 0, 0, 9, 0x1a, 0x99, 0, 7, 0xa7, 0xff, 0xfc, 0x57, 0xb1,
    0, 1, 0, 0, 0, 7, 0, 7, 0, 0, 0, 0]

/-- A method without code. -/
def blankMethod : Method := ⟨8, "f", "(I)V", 0, 0, #[], []⟩

/-- The method with the loop. -/
def guardedLoopMethod : Method :=
  ⟨8, "f", "(I)V", 1, 1,
    #[.label ⟨"L0", 0⟩, .var .iload 0, .jump ⟨0x99⟩ ⟨"L8", 0⟩, .jump .goto ⟨"L0", 0⟩, .label ⟨"L7", 0⟩,
      .plain ⟨0x57⟩, .label ⟨"L8", 0⟩, .plain ⟨0xb1⟩],
    [⟨⟨"L0", 0⟩, ⟨"L7", 0⟩, ⟨"L7", 0⟩, ""⟩]⟩

set_option maxRecDepth 4000 in
theorem readCode_guardedLoop :
    (readCode ⟨#[], []⟩ 0 blankMethod).runOn guardedLoop = .ok guardedLoopMethod := by rfl

theorem offsets_correspond_guardedLoop :
    (readCode ⟨#[], []⟩ 0 blankMethod).runOn guardedLoop = .ok guardedLoopMethod ∧
      ∃ (a : CodeData) (pieces : List Piece) (lines : List Line) (rest : List UInt8),
        guardedLoop = a.bytes ++ rest ∧
          Correspondence ⟨#[], []⟩ 0 a pieces lines blankMethod guardedLoopMethod :=
  ⟨readCode_guardedLoop, offsets_correspond rfl readCode_guardedLoop⟩

end StackMap.ClassFile
