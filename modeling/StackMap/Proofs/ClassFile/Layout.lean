import StackMap.Proofs.ClassFile.Instruction
import StackMap.Proofs.Code.Position

/-!
# `Proofs.ClassFile.Layout`: offsets and the list of instructions

A code array falls into pieces, one for each instruction. The list that decoding gives has a line for each
piece, and marks between them: the labels. Lines have keys that grow along the list, so that comparing
lines of the list is comparing offsets, and no offset is marked twice.

## Contents

* `labelAt_injective`: labels of different offsets differ.
* `Piece`, `Tiled`: the pieces of a code array.
* `Line`, `linesOf`, `layOut_eq`: the lines of the list of instructions.
* `sorted_linesOf`, `mark_mem_linesOf_iff`, `mark_followed`: their order, and where marks stand.
-/

namespace StackMap

open ClassFile

/-! ## Labels -/

namespace Numeral

theorem toDigits_injective {m n : Nat} (h : Nat.toDigits 10 m = Nat.toDigits 10 n) : m = n := by
  calc
    m = Nat.ofDigitChars 10 (Nat.toDigits 10 m) 0 := Nat.ofDigitChars_ten_toDigits.symm
    _ = Nat.ofDigitChars 10 (Nat.toDigits 10 n) 0 := by rw [h]
    _ = n := Nat.ofDigitChars_ten_toDigits

/-- No digit is a minus sign. -/
theorem toDigits_ne_minus {n : Nat} {s : List Char} : Nat.toDigits 10 n ≠ '-' :: s := by
  intro h
  have hdigit := Nat.isDigit_of_mem_toDigits (by decide) (by decide) (h ▸ List.mem_cons_self)
  exact absurd hdigit (by decide)

/-- **Different numbers have different texts.** -/
theorem toText_injective {m n : Int} (h : toText m = toText n) : m = n := by
  cases m with
  | ofNat m =>
    cases n with
    | ofNat n => rw [toDigits_injective (String.ofList_injective h)]
    | negSucc n => exact absurd (String.ofList_injective h) toDigits_ne_minus
  | negSucc m =>
    cases n with
    | ofNat n => exact absurd (String.ofList_injective h).symm toDigits_ne_minus
    | negSucc n =>
      have htail := (List.cons.inj (String.ofList_injective h)).2
      rw [Nat.succ.inj (toDigits_injective htail)]

end Numeral

namespace ClassFile

/-- **Labels of different offsets differ.** -/
theorem labelAt_injective {block : Nat} {m n : Int} (h : labelAt block m = labelAt block n) : m = n := by
  have hname : "L" ++ Numeral.toText m = "L" ++ Numeral.toText n := congrArg Label.name h
  exact Numeral.toText_injective (String.append_right_inj _ |>.mp hname)

/-! ## Pieces -/

/-- **A piece of a code array**: an instruction, the bytes that it takes, and their offset. Its targets are
distances from there. -/
structure Piece where
  offset : Nat
  bytes : List UInt8
  draft : Draft Int

namespace Piece

/-- The offset behind a piece. -/
def stop (p : Piece) : Nat := p.offset + p.bytes.length

/-- The offsets that the instruction of a piece refers to. -/
def targets (p : Piece) : List Int := p.draft.targets.map ((p.offset : Int) + ·)

/-- The instruction of a piece, with the labels of a code block. -/
def insn (block : Nat) (p : Piece) : Insn :=
  p.draft.insn fun distance => labelAt block (p.offset + distance)

/-- A piece as decoding gives it. -/
def placed (block : Nat) (p : Piece) : Placed := ⟨p.offset, p.insn block, p.targets⟩

theorem kind_insn_ne (block : Nat) (p : Piece) : (p.insn block).kind ≠ .label := Draft.kind_insn_ne _ _

end Piece

/-- **Pieces side by side** from one offset up to another: each is an encoding of its instruction, and the
next one starts where it stops. -/
inductive Tiled (pool : Pool) : Nat → List Piece → Nat → Prop
  | nil {offset : Nat} : Tiled pool offset [] offset
  | cons {p : Piece} {rest : List Piece} {stop : Nat} (hencodes : Encodes pool p.offset p.bytes p.draft)
    (hrest : Tiled pool p.stop rest stop) : Tiled pool p.offset (p :: rest) stop

section

variable {pool : Pool} {start stop : Nat} {pieces : List Piece}

theorem Encodes.lt_stop {p : Piece} (h : Encodes pool p.offset p.bytes p.draft) : p.offset < p.stop :=
  Nat.lt_add_of_pos_right (List.length_pos_iff.mpr h.ne_nil)

namespace Tiled

/-- The bytes of the pieces fill the space between the two offsets. -/
theorem stop_eq (h : Tiled pool start pieces stop) :
    stop = start + (pieces.flatMap (·.bytes)).length := by
  induction h with
  | nil => rfl
  | cons _ _ ih =>
    rw [ih, List.flatMap_cons, List.length_append, ← Nat.add_assoc]
    rfl

theorem le_stop (h : Tiled pool start pieces stop) : start ≤ stop := by
  rw [h.stop_eq]
  exact Nat.le_add_right _ _

theorem encodes (h : Tiled pool start pieces stop) :
    ∀ p ∈ pieces, Encodes pool p.offset p.bytes p.draft := by
  induction h with
  | nil => exact nofun
  | cons hencodes _ ih => exact List.forall_mem_cons.mpr ⟨hencodes, ih⟩

theorem bounds (h : Tiled pool start pieces stop) :
    ∀ p ∈ pieces, start ≤ p.offset ∧ p.offset < p.stop ∧ p.stop ≤ stop := by
  induction h with
  | nil => exact nofun
  | cons hencodes hrest ih =>
    have hlt := hencodes.lt_stop
    refine List.forall_mem_cons.mpr ⟨⟨Nat.le_refl _, hlt, hrest.le_stop⟩, fun q hq => ?_⟩
    obtain ⟨hle, hq⟩ := ih q hq
    exact ⟨by omega, hq⟩

/-- **No two pieces overlap**: each stops before the next ones start. -/
theorem disjoint (h : Tiled pool start pieces stop) :
    pieces.Pairwise fun p q => p.offset < p.stop ∧ p.stop ≤ q.offset := by
  induction h with
  | nil => exact .nil
  | cons hencodes hrest ih =>
    exact .cons (fun q hq => ⟨hencodes.lt_stop, (hrest.bounds q hq).1⟩) ih

end Tiled

end

/-! ## Lines -/

/-- **Lines of the list of instructions**: an offset that is marked with a label, or a piece. -/
inductive Line where
  | mark (offset : Nat)
  | code (piece : Piece)

namespace Line

/-- The instruction on a line. -/
def insn (block : Nat) : Line → Insn
  | mark offset => .label (labelAt block offset)
  | code piece => piece.insn block

/-- The piece on a line. -/
def piece? : Line → Option Piece
  | mark _ => none
  | code piece => some piece

theorem piece?_eq_some_iff {line : Line} {p : Piece} : line.piece? = some p ↔ line = .code p := by
  cases line with
  | mark offset => simp only [piece?, reduceCtorEq]
  | code q => simp only [piece?, Option.some.injEq, Line.code.injEq]

/-- A mark comes before the piece at its offset. -/
def key : Line → Nat
  | mark offset => 2 * offset
  | code piece => 2 * piece.offset + 1

end Line

/-- The mark of an offset, if something refers to it. -/
def marksAt (refs : List Int) (offset : Nat) : List Line :=
  if refs.contains (offset : Int) then [.mark offset] else []

/-- **The lines for pieces** up to the offset `stop`. -/
def linesOf (refs : List Int) (stop : Nat) : List Piece → List Line
  | [] => marksAt refs stop
  | p :: rest => marksAt refs p.offset ++ .code p :: linesOf refs stop rest

variable {refs : List Int} {pool : Pool} {start stop : Nat} {pieces : List Piece}

theorem layOut_eq (block : Nat) (refs : List Int) (stop : Nat) (pieces : List Piece) :
    layOut block (pieces.map (·.placed block)) stop refs = (linesOf refs stop pieces).map (·.insn block) := by
  induction pieces with
  | nil =>
    unfold layOut linesOf marksAt
    split <;> rfl
  | cons p rest ih =>
    unfold layOut at ih ⊢
    rw [List.map_cons, List.flatMap_cons, List.append_assoc, ih, linesOf, marksAt, List.map_append]
    by_cases hmark : refs.contains (p.offset : Int)
    · rw [if_pos hmark, if_pos (show refs.contains ((p.placed block).offset : Int) from hmark)]
      rfl
    · rw [if_neg hmark, if_neg (show ¬ refs.contains ((p.placed block).offset : Int) from hmark)]
      rfl

theorem mem_marksAt_iff {line : Line} {offset : Nat} :
    line ∈ marksAt refs offset ↔ (offset : Int) ∈ refs ∧ line = .mark offset := by
  unfold marksAt
  split
  · rename_i h
    rw [List.mem_singleton, and_iff_right (List.contains_iff_mem.mp h)]
  · rename_i h
    simp only [List.not_mem_nil, false_iff, not_and]
    exact fun hmem => absurd (List.contains_iff_mem.mpr hmem) h

/-- The pieces are on the lines in their order. -/
theorem pieces_linesOf (refs : List Int) (stop : Nat) (pieces : List Piece) :
    (linesOf refs stop pieces).filterMap Line.piece? = pieces := by
  have hmarks : ∀ offset, (marksAt refs offset).filterMap Line.piece? = [] := by
    intro offset
    unfold marksAt
    split <;> rfl
  induction pieces with
  | nil => exact hmarks stop
  | cons p rest ih =>
    rw [linesOf, List.filterMap_append, hmarks, List.nil_append, List.filterMap_cons, ih]
    rfl

theorem code_mem_linesOf_iff {p : Piece} : Line.code p ∈ linesOf refs stop pieces ↔ p ∈ pieces := by
  conv_rhs => rw [← pieces_linesOf refs stop pieces]
  simp only [List.mem_filterMap, Line.piece?_eq_some_iff, exists_eq_right]

/-- **The offsets with a mark** are those of pieces, and the end, that something refers to. -/
theorem mark_mem_linesOf_iff {offset : Nat} :
    Line.mark offset ∈ linesOf refs stop pieces ↔
      (offset : Int) ∈ refs ∧ (offset = stop ∨ ∃ p ∈ pieces, p.offset = offset) := by
  induction pieces with
  | nil =>
    rw [linesOf, mem_marksAt_iff, Line.mark.injEq]
    constructor
    · rintro ⟨href, rfl⟩
      exact ⟨href, .inl rfl⟩
    · rintro ⟨href, rfl | ⟨p, hp, -⟩⟩
      · exact ⟨href, rfl⟩
      · exact nomatch hp
  | cons p rest ih =>
    rw [linesOf, List.mem_append, List.mem_cons, mem_marksAt_iff, ih, Line.mark.injEq]
    constructor
    · rintro (⟨href, rfl⟩ | h | ⟨href, rfl | ⟨q, hq, hoffset⟩⟩)
      · exact ⟨href, .inr ⟨p, List.mem_cons_self, rfl⟩⟩
      · exact nomatch h
      · exact ⟨href, .inl rfl⟩
      · exact ⟨href, .inr ⟨q, List.mem_cons_of_mem _ hq, hoffset⟩⟩
    · rintro ⟨href, hstop | ⟨q, hq, rfl⟩⟩
      · exact .inr (.inr ⟨href, .inl hstop⟩)
      · rcases List.mem_cons.mp hq with rfl | hq
        · exact .inl ⟨href, rfl⟩
        · exact .inr (.inr ⟨href, .inr ⟨q, hq, rfl⟩⟩)

/-- The lines for pieces that start at an offset have keys from there on. -/
theorem le_key_of_mem_linesOf (h : Tiled pool start pieces stop) {line : Line}
    (hline : line ∈ linesOf refs stop pieces) : 2 * start ≤ line.key := by
  have hstop := h.le_stop
  cases line with
  | mark offset =>
    obtain ⟨-, rfl | ⟨p, hp, rfl⟩⟩ := mark_mem_linesOf_iff.mp hline
    · exact Nat.mul_le_mul_left 2 hstop
    · exact Nat.mul_le_mul_left 2 (h.bounds p hp).1
  | code p =>
    have hp := h.bounds p (code_mem_linesOf_iff.mp hline)
    simp only [Line.key]
    omega

/-- **The lines are in order.** -/
theorem sorted_linesOf (h : Tiled pool start pieces stop) :
    (linesOf refs stop pieces).Pairwise fun a b => a.key < b.key := by
  induction h with
  | nil =>
    unfold linesOf marksAt
    split
    · exact List.pairwise_singleton _ _
    · exact .nil
  | @cons p rest stop hencodes hrest ih =>
    have hlt := hencodes.lt_stop
    -- Behind the piece come the lines of the others, which start where it stops.
    have hbehind : ∀ line ∈ linesOf refs stop rest, 2 * p.offset + 1 < line.key := by
      intro line hline
      have hkey := le_key_of_mem_linesOf hrest hline
      omega
    have htail : (Line.code p :: linesOf refs stop rest).Pairwise fun a b => a.key < b.key :=
      .cons hbehind ih
    unfold linesOf marksAt
    split
    · refine .cons (fun line hline => ?_) htail
      rcases List.mem_cons.mp hline with rfl | hline
      · exact Nat.lt_succ_self _
      · exact Nat.lt_of_succ_lt (hbehind line hline)
    · exact htail

/-- **A mark stands directly before the piece at its offset**, or last if it is that of the end. -/
theorem mark_followed {i offset : Nat} (h : (linesOf refs stop pieces)[i]? = some (.mark offset)) :
    (∃ p, (linesOf refs stop pieces)[i + 1]? = some (.code p) ∧ p.offset = offset) ∨
      offset = stop ∧ i + 1 = (linesOf refs stop pieces).length := by
  induction pieces generalizing i with
  | nil =>
    unfold linesOf marksAt at h ⊢
    split at h
    · rename_i hmark
      rw [if_pos hmark]
      cases i with
      | zero =>
        cases h
        exact .inr ⟨rfl, rfl⟩
      | succ i => exact nomatch h
    · exact nomatch h
  | cons p rest ih =>
    unfold linesOf marksAt at h ⊢
    split at h
    · rename_i hmark
      rw [if_pos hmark]
      match i, h with
      | 0, h =>
        cases h
        exact .inl ⟨p, rfl, rfl⟩
      | i + 2, h =>
        exact (ih (i := i) h).imp id fun ⟨hstop, hlast⟩ => ⟨hstop, congrArg (· + 2) hlast⟩
    · rename_i hmark
      rw [if_neg hmark]
      match i, h with
      | i + 1, h =>
        exact (ih (i := i) h).imp id fun ⟨hstop, hlast⟩ => ⟨hstop, congrArg (· + 1) hlast⟩

end ClassFile

end StackMap
