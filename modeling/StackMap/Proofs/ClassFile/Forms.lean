import StackMap.Proofs.ClassFile.CodeArray

/-!
# `Proofs.ClassFile.Forms`: a list of instructions in any of its encodings

A list of instructions, with positions in it for targets, has many encodings, since there are several forms
for one instruction and the length of each shifts the offsets of all that follow. Whatever forms are chosen,
reading the encoding gives the list again, with a label in front of every instruction that is referred to. The
choice shows in the names of the labels only.

## Contents

* `Body`, `Region`, `Body.into`: the body of a method by positions, and the method with labels.
* `offsetOf`, `Encoded`, `Body.EncodedBy`: the offsets of positions, and the encodings of a body.
* `readCode_encoding`: a body is read back from its encodings.
-/

namespace StackMap.ClassFile

open Reader

/-! ## Bodies -/

/-- **A region with an exception handler**, by positions in a list of instructions, with the class that it
catches and the number of that class in the pool. -/
structure Region where
  start : Nat
  stop : Nat
  handler : Nat
  catchType : UInt16
  type : String

/-- The positions that a region refers to. -/
def Region.positions (r : Region) : List Nat := [r.start, r.stop, r.handler]

/-- **The body of a method** as a list of instructions. Targets are positions in the list, and the position
behind the last instruction is that of the end. -/
structure Body where
  maxStack : UInt16
  maxLocals : UInt16
  drafts : List (Draft Nat)
  regions : List Region

/-- The label of a position, if something refers to it. -/
def labelIf (label : Nat → Label) (positions : List Nat) (k : Nat) : List Insn :=
  if k ∈ positions then [.label (label k)] else []

/-- Instructions from the position `k` on, each behind its label. -/
def labelled (label : Nat → Label) (positions : List Nat) : (k : Nat) → List (Draft Nat) → List Insn
  | k, [] => labelIf label positions k
  | k, d :: rest => labelIf label positions k ++ d.insn label :: labelled label positions (k + 1) rest

namespace Body

/-- The positions that are referred to. -/
def positions (b : Body) : List Nat := b.drafts.flatMap (·.targets) ++ b.regions.flatMap (·.positions)

/-- **The method with the body**, given labels for positions: there is exactly one label in front of each
instruction that is referred to, and one at the end if that is. -/
def into (label : Nat → Label) (b : Body) (m : Method) : Method :=
  { m with
    maxStack := b.maxStack.toNat
    maxLocals := b.maxLocals.toNat
    insns := m.insns ++ labelled label b.positions 0 b.drafts
    tryCatch := m.tryCatch ++ b.regions.map fun r =>
      ⟨label r.start, label r.stop, label r.handler, r.type⟩ }

end Body

/-! ## Encodings -/

/-- **The offset of a position**: the bytes of all parts before it. -/
def offsetOf (parts : List (List UInt8)) (k : Nat) : Nat := (parts.take k).flatten.length

/-- **An encoding of a list of instructions** from the offset `start` on, one part for each instruction.
Positions have the offsets that `offset` gives, and the distance of a target is counted from the start of the
instruction. -/
inductive Encoded (pool : Pool) (offset : Nat → Nat) :
    (start : Nat) → List (Draft Nat) → List (List UInt8) → Prop
  | nil {start : Nat} : Encoded pool offset start [] []
  | cons {start : Nat} {d : Draft Nat} {part : List UInt8} {drafts : List (Draft Nat)}
    {parts : List (List UInt8)} (hpart : Encodes pool start part (d.map fun k => (offset k : Int) - start))
    (hrest : Encoded pool offset (start + part.length) drafts parts) :
    Encoded pool offset start (d :: drafts) (part :: parts)

/-- The row of the exception table for a region. -/
def Region.row (parts : List (List UInt8)) (r : Region) : HandlerRow :=
  ⟨(offsetOf parts r.start).toUInt16, (offsetOf parts r.stop).toUInt16, (offsetOf parts r.handler).toUInt16,
    r.catchType⟩

namespace Body

/-- The code attribute with the given parts of code, and with further attributes. -/
def data (b : Body) (parts : List (List UInt8)) (attributes : List (UInt16 × List UInt8)) : CodeData :=
  ⟨b.maxStack, b.maxLocals, parts.flatten, b.regions.map fun r => (r.row parts, r.type), attributes⟩

/-- **An encoding of a body**: each part is an encoding of its instruction, with the offsets that the layout
gives, everything that is referred to is a position in the list, classes are found in the pool, and the
offsets and lengths fit their fields. -/
structure EncodedBy (pool : Pool) (b : Body) (parts : List (List UInt8))
    (attributes : List (UInt16 × List UInt8)) : Prop where
  code : Encoded pool (offsetOf parts) 0 b.drafts parts
  positions : ∀ k ∈ b.positions, k ≤ b.drafts.length
  names : ∀ r ∈ b.regions, catchName pool r.catchType.toNat = .ok r.type
  offsets : ∀ r ∈ b.regions, ∀ k ∈ r.positions, offsetOf parts k < 65536
  fits : (b.data parts attributes).Fits

end Body

/-! ## The layout of an encoding -/

section

variable {parts : List (List UInt8)} {j k : Nat}

theorem offsetOf_cons_succ (part : List UInt8) (parts : List (List UInt8)) (k : Nat) :
    offsetOf (part :: parts) (k + 1) = part.length + offsetOf parts k := by
  rw [offsetOf, List.take_succ_cons, List.flatten_cons, List.length_append]
  rfl

/-- **Offsets grow with positions.** -/
theorem offsetOf_lt (h : ∀ part ∈ parts, part ≠ []) (hjk : j < k) (hk : k ≤ parts.length) :
    offsetOf parts j < offsetOf parts k := by
  induction parts generalizing j k with
  | nil => exact absurd (Nat.lt_of_lt_of_le hjk hk) (Nat.not_lt_zero j)
  | cons part parts ih =>
    obtain ⟨k, rfl⟩ := Nat.exists_eq_succ_of_ne_zero (Nat.ne_zero_of_lt hjk)
    rw [List.forall_mem_cons] at h
    rw [offsetOf_cons_succ]
    cases j with
    | zero =>
      have hpos := List.length_pos_iff.mpr h.1
      exact Nat.lt_of_lt_of_le hpos (Nat.le_add_right _ _)
    | succ j =>
      rw [offsetOf_cons_succ]
      exact Nat.add_lt_add_left (ih h.2 (Nat.lt_of_succ_lt_succ hjk) (Nat.le_of_succ_le_succ hk)) _

theorem offsetOf_injective (h : ∀ part ∈ parts, part ≠ []) (hj : j ≤ parts.length) (hk : k ≤ parts.length)
    (hjk : offsetOf parts j = offsetOf parts k) : j = k := by
  rcases Nat.lt_trichotomy j k with hlt | rfl | hlt
  · exact absurd hjk (Nat.ne_of_lt (offsetOf_lt h hlt hk))
  · rfl
  · exact absurd hjk.symm (Nat.ne_of_lt (offsetOf_lt h hlt hj))

end

/-- The pieces of an encoding. -/
def piecesOf (offset : Nat → Nat) : (start : Nat) → List (Draft Nat) → List (List UInt8) → List Piece
  | start, d :: drafts, part :: parts =>
    ⟨start, part, d.map fun k => (offset k : Int) - start⟩ ::
      piecesOf offset (start + part.length) drafts parts
  | _, _, _ => []

namespace Encoded

variable {pool : Pool} {offset : Nat → Nat} {start block : Nat} {drafts : List (Draft Nat)}
  {parts : List (List UInt8)}

theorem length_eq (h : Encoded pool offset start drafts parts) : parts.length = drafts.length := by
  induction h with
  | nil => rfl
  | cons _ _ ih => rw [List.length_cons, List.length_cons, ih]

theorem ne_nil (h : Encoded pool offset start drafts parts) : ∀ part ∈ parts, part ≠ [] := by
  induction h with
  | nil => exact nofun
  | cons hpart _ ih => exact List.forall_mem_cons.mpr ⟨hpart.ne_nil, ih⟩

/-- **The parts of an encoding are pieces side by side.** -/
theorem tiled (h : Encoded pool offset start drafts parts) :
    Tiled pool start (piecesOf offset start drafts parts) (start + parts.flatten.length) := by
  induction h with
  | nil => exact .nil
  | @cons start d part drafts parts hpart _ ih =>
    let p : Piece := ⟨start, part, d.map fun k => (offset k : Int) - start⟩
    have hcons := Tiled.cons (p := p) hpart ih
    rwa [Nat.add_assoc, ← List.length_append, ← List.flatten_cons] at hcons

theorem bytes_pieces (h : Encoded pool offset start drafts parts) :
    (piecesOf offset start drafts parts).flatMap (·.bytes) = parts.flatten := by
  induction h with
  | nil => rfl
  | cons _ _ ih => rw [piecesOf, List.flatMap_cons, ih, List.flatten_cons]

/-- A distance from the start of the instruction leads to the offset of the target. -/
theorem targets_pieces (h : Encoded pool offset start drafts parts) :
    (piecesOf offset start drafts parts).flatMap (·.targets) =
      (drafts.flatMap (·.targets)).map fun k => (offset k : Int) := by
  induction h with
  | nil => rfl
  | cons _ _ ih =>
    rw [piecesOf, List.flatMap_cons, List.flatMap_cons, List.map_append, ih, Piece.targets,
      Draft.targets_map, List.map_map]
    congr 2
    funext k
    simp only [Function.comp_apply]
    omega

/-- **Each position is where a piece starts, or the end.** -/
theorem exists_piece (h : Encoded pool offset start drafts parts) {j : Nat} (hj : j ≤ parts.length) :
    start + offsetOf parts j = start + parts.flatten.length ∨
      ∃ p ∈ piecesOf offset start drafts parts, p.offset = start + offsetOf parts j := by
  induction h generalizing j with
  | nil =>
    obtain rfl := Nat.le_zero.mp hj
    exact .inl rfl
  | @cons start d part drafts parts hpart hrest ih =>
    cases j with
    | zero => exact .inr ⟨_, List.mem_cons_self, rfl⟩
    | succ j =>
      rw [offsetOf_cons_succ, List.flatten_cons, List.length_append, ← Nat.add_assoc, ← Nat.add_assoc]
      refine (ih (Nat.le_of_succ_le_succ hj)).imp id ?_
      rintro ⟨p, hp, hoffset⟩
      exact ⟨p, List.mem_cons_of_mem _ hp, hoffset⟩

/-- The marks of a position are its labels. -/
theorem insns_marksAt (block : Nat) {refs : List Int} {positions : List Nat} {k : Nat}
    (hstart : offset k = start) (hrefs : (offset k : Int) ∈ refs ↔ k ∈ positions) :
    (marksAt refs start).map (·.insn block) = labelIf (fun k => labelAt block (offset k)) positions k := by
  subst hstart
  unfold marksAt labelIf
  by_cases hk : k ∈ positions
  · rw [if_pos hk, if_pos (List.contains_iff_mem.mpr (hrefs.mpr hk))]
    rfl
  · rw [if_neg hk, if_neg fun h => hk (hrefs.mp (List.contains_iff_mem.mp h))]
    rfl

/-- **The lines for an encoding** are the instructions, each behind its label: the position `k` of the first
one and those behind it have the offsets of the layout, and are referred to by offset if and only if they are
by position. -/
theorem insns_lines (h : Encoded pool offset start drafts parts) {refs : List Int} {positions : List Nat}
    {k : Nat} (hoffset : ∀ j ≤ parts.length, offset (k + j) = start + offsetOf parts j)
    (hrefs : ∀ j ≤ parts.length, (offset (k + j) : Int) ∈ refs ↔ k + j ∈ positions) :
    (linesOf refs (start + parts.flatten.length) (piecesOf offset start drafts parts)).map (·.insn block) =
      labelled (fun k => labelAt block (offset k)) positions k drafts := by
  induction h generalizing k with
  | nil => exact insns_marksAt block (hoffset 0 (Nat.zero_le _)) (hrefs 0 (Nat.zero_le _))
  | @cons start d part drafts parts hpart hrest ih =>
    have hstart : offset k = start := hoffset 0 (Nat.zero_le _)
    have hhead : (offset k : Int) ∈ refs ↔ k ∈ positions := hrefs 0 (Nat.zero_le _)
    have hlabel := insns_marksAt block hstart hhead
    have hinsn : (d.map fun k => (offset k : Int) - start).insn (fun t => labelAt block (start + t)) =
        d.insn fun k => labelAt block (offset k) := by
      rw [Draft.insn_map]
      congr 1
      funext k
      rw [show (start : Int) + (offset k - start) = offset k by omega]
    have htail := ih (k := k + 1) (fun j hj => ?_) (fun j hj => ?_)
    · let p : Piece := ⟨start, part, d.map fun k => (offset k : Int) - start⟩
      rw [List.flatten_cons, List.length_append, ← Nat.add_assoc]
      show (marksAt refs start ++ Line.code p :: linesOf refs (start + part.length + parts.flatten.length)
        (piecesOf offset (start + part.length) drafts parts)).map (·.insn block) = _
      rw [List.map_append, List.map_cons, hlabel, htail, labelled, ← hinsn]
      rfl
    · have hnext := hoffset (j + 1) (Nat.succ_le_succ hj)
      rwa [offsetOf_cons_succ, ← Nat.add_assoc, Nat.add_right_comm, ← Nat.add_assoc] at hnext
    · have hnext := hrefs (j + 1) (Nat.succ_le_succ hj)
      rwa [← Nat.add_assoc, Nat.add_right_comm] at hnext

end Encoded

/-! ## Reading an encoding -/

section

variable {pool : Pool} {block : Nat} {b : Body} {parts : List (List UInt8)}
  {attributes : List (UInt16 × List UInt8)}

namespace Body

/-- The pieces of the code. -/
abbrev pieces (b : Body) (parts : List (List UInt8)) : List Piece :=
  piecesOf (offsetOf parts) 0 b.drafts parts

namespace EncodedBy

theorem tiled (h : b.EncodedBy pool parts attributes) :
    Tiled pool 0 (b.pieces parts) parts.flatten.length := by
  have htiled := h.code.tiled
  rwa [Nat.zero_add] at htiled

/-- What is referred to by offset is what is referred to by position. -/
theorem refs_eq (h : b.EncodedBy pool parts attributes) :
    (b.data parts attributes).refs (b.pieces parts) =
      b.positions.map fun k => (offsetOf parts k : Int) := by
  have hrows : ∀ r ∈ b.regions, (r.row parts).targets = r.positions.map fun k => (offsetOf parts k : Int) := by
    intro r hr
    have htoNat : ∀ k ∈ r.positions, (offsetOf parts k).toUInt16.toNat = offsetOf parts k := fun k hk =>
      UInt16.toNat_ofNat_of_lt' (h.offsets r hr k hk)
    simp only [Region.positions, List.forall_mem_cons] at htoNat
    simp only [Region.row, HandlerRow.targets, Region.positions, List.map_cons, List.map_nil, htoNat]
  unfold CodeData.refs Body.positions
  rw [h.code.targets_pieces, List.map_append, Body.data, List.flatMap_map]
  congr 1
  rw [List.map_flatMap]
  exact List.flatMap_congr hrows

theorem accepted (h : b.EncodedBy pool parts attributes) :
    (b.data parts attributes).Accepted pool (b.pieces parts) where
  fits := h.fits
  names := List.forall_mem_map.mpr h.names
  tiled := h.tiled
  code := h.code.bytes_pieces
  refs := by
    intro r hr
    rw [h.refs_eq] at hr
    obtain ⟨k, hk, rfl⟩ := List.mem_map.mp hr
    have hle : k ≤ parts.length := h.code.length_eq ▸ h.positions k hk
    have hpiece := h.code.exists_piece hle
    simp only [Nat.zero_add] at hpiece
    exact ⟨offsetOf parts k, rfl, hpiece⟩

theorem into_eq (h : b.EncodedBy pool parts attributes) (m : Method) :
    (b.data parts attributes).into block (b.pieces parts) m =
      b.into (fun k => labelAt block (offsetOf parts k)) m := by
  have hmem : ∀ k ≤ parts.length,
      (offsetOf parts k : Int) ∈ (b.data parts attributes).refs (b.pieces parts) ↔ k ∈ b.positions := by
    intro k hk
    rw [h.refs_eq, List.mem_map]
    constructor
    · rintro ⟨j, hj, hjk⟩
      have hle : j ≤ parts.length := h.code.length_eq ▸ h.positions j hj
      rwa [← offsetOf_injective h.code.ne_nil hle hk (Int.ofNat_inj.mp hjk)]
    · exact fun hk => ⟨k, hk, rfl⟩
  have hinsns : (linesOf ((b.data parts attributes).refs (b.pieces parts)) (0 + parts.flatten.length)
      (b.pieces parts)).map (·.insn block) =
      labelled (fun k => labelAt block (offsetOf parts k)) b.positions 0 b.drafts := by
    refine h.code.insns_lines (fun j _ => ?_) fun j hj => ?_
    · rw [Nat.zero_add, Nat.zero_add]
    · rw [Nat.zero_add]
      exact hmem j hj
  rw [Nat.zero_add] at hinsns
  have hhandlers : ∀ r ∈ b.regions, (r.row parts).tryCatch block r.type =
      ⟨labelAt block (offsetOf parts r.start), labelAt block (offsetOf parts r.stop),
        labelAt block (offsetOf parts r.handler), r.type⟩ := by
    intro r hr
    have htoNat : ∀ k ∈ r.positions, (offsetOf parts k).toUInt16.toNat = offsetOf parts k := fun k hk =>
      UInt16.toNat_ofNat_of_lt' (h.offsets r hr k hk)
    simp only [Region.positions, List.forall_mem_cons] at htoNat
    simp only [Region.row, HandlerRow.tryCatch, htoNat]
  have htryCatch : (b.data parts attributes).rows.map (fun r => r.1.tryCatch block r.2) =
      b.regions.map fun r => ⟨labelAt block (offsetOf parts r.start), labelAt block (offsetOf parts r.stop),
        labelAt block (offsetOf parts r.handler), r.type⟩ := by
    rw [Body.data, List.map_map]
    exact List.map_congr_left hhandlers
  unfold CodeData.into Body.into
  rw [htryCatch, CodeData.lines, ← hinsns]
  rfl

end EncodedBy

end Body

/-- **A body is read back from each of its encodings.** The method that is read has one label in front of
each instruction that is referred to, and every reference is to the label of its target; the forms that were
chosen show only in the offsets that the labels are named after. -/
theorem readCode_encoding (h : b.EncodedBy pool parts attributes) (m : Method) (rest : List UInt8) :
    (readCode pool block m).runOn ((b.data parts attributes).bytes ++ rest) =
        .ok (b.into (fun k => labelAt block (offsetOf parts k)) m) ∧
      ∀ j k, j ≤ b.drafts.length → k ≤ b.drafts.length →
        labelAt block (offsetOf parts j) = labelAt block (offsetOf parts k) → j = k := by
  constructor
  · rw [← h.into_eq]
    exact (reads_readCode h.accepted m).runOn_append rest
  · intro j k hj hk hlabel
    rw [← h.code.length_eq] at hj hk
    exact offsetOf_injective h.code.ne_nil hj hk (Int.ofNat_inj.mp (labelAt_injective hlabel))

end

/-- A body with a jump to a constant, a switch, and a jump back from its end. -/
def switching : Body where
  maxStack := 1
  maxLocals := 301
  drafts := [.var .iload 0, .jump ⟨0x99⟩ 4, .tableSwitch 5 0 [3, 6], .var .aload 300, .ldc (.int 7),
    .jump .goto 0]
  regions := [⟨0, 4, 4, 0, ""⟩]

/-- The short form of a load, a padded switch, a wide load, `ldc_w` and `goto_w`. -/
def switchingParts : List (List UInt8) :=
  [[0x1a], [0x99, 0, 31],
    [0xaa, 0, 0, 0, 0xff, 0xff, 0xff, 0xfc, 0, 0, 0, 5, 0, 0, 0, 6, 0, 0, 0, 24, 0, 0, 0, 36],
    [0xc4, 0x19, 1, 44], [0x13, 0, 1], [0xc8, 0xff, 0xff, 0xff, 0xdd]]

/-- A pool with one number. -/
def numberPool : Pool := ⟨#[.unused, .integer 7], []⟩

/-- The forms are encodings. -/
theorem encoded_switching :
    Encoded numberPool (offsetOf switchingParts) 0 switching.drafts switchingParts := by
  have hload : Opcode.iload.isLoad || Opcode.iload.isStore := rfl
  have haload : Opcode.aload.isLoad || Opcode.aload.isStore || Opcode.aload = .ret := rfl
  have hjump : (⟨0x99⟩ : Opcode).isJump := rfl
  have hpad : ([0, 0, 0] : List UInt8).length = padding 5 := rfl
  have hlong : (⟨0x13⟩ : Opcode).between 0x13 0x14 := rfl
  refine .cons (.varShort hload (show 0 ≤ 3 by decide)) ?_
  refine .cons (.jump hjump (show FitsIn 16 31 by decide)) ?_
  refine .cons (.tableSwitch hpad (show [(24 : Int), 36] ≠ [] by decide) (show FitsIn 32 5 by decide)
    (by decide) (show ∀ t ∈ [(-4 : Int), 24, 36], FitsIn 32 t by decide)) ?_
  refine .cons (.varWide haload (show 300 < 65536 by decide)) ?_
  refine .cons (.ldcLong hlong (show 1 < 65536 by decide) rfl) ?_
  refine .cons (.jumpLong (.inl rfl) (show FitsIn 32 (-35) by decide)) ?_
  exact .nil

theorem readCode_encoding_switching :
    switching.EncodedBy numberPool switchingParts [] ∧
      (readCode numberPool 0 ⟨8, "f", "(I)V", 0, 0, #[], []⟩).runOn
          ((switching.data switchingParts []).bytes ++ []) =
        .ok (switching.into (fun k => labelAt 0 (offsetOf switchingParts k))
          ⟨8, "f", "(I)V", 0, 0, #[], []⟩) ∧
      ∀ j k, j ≤ switching.drafts.length → k ≤ switching.drafts.length →
        labelAt 0 (offsetOf switchingParts j) = labelAt 0 (offsetOf switchingParts k) → j = k := by
  have hfits : (switching.data switchingParts []).Fits :=
    ⟨by decide, by decide, by decide, fun _ h => nomatch h⟩
  have hnames : ∀ r ∈ switching.regions, catchName numberPool r.catchType.toNat = .ok r.type := by
    intro r hr
    cases List.mem_singleton.mp hr
    rfl
  have hencoded : switching.EncodedBy numberPool switchingParts [] :=
    ⟨encoded_switching, by decide, hnames, by decide, hfits⟩
  exact ⟨hencoded, readCode_encoding hencoded _ _⟩

example : (switching.into (fun k => labelAt 0 (offsetOf switchingParts k))
    ⟨8, "f", "(I)V", 0, 0, #[], []⟩).insns =
      #[.label ⟨"L0", 0⟩, .var .iload 0, .jump ⟨0x99⟩ ⟨"L32", 0⟩,
        .tableSwitch 5 6 ⟨"L0", 0⟩ [⟨"L28", 0⟩, ⟨"L40", 0⟩], .label ⟨"L28", 0⟩, .var .aload 300,
        .label ⟨"L32", 0⟩, .ldc (some (.int 7)), .jump .goto ⟨"L0", 0⟩, .label ⟨"L40", 0⟩] := by
  rfl

end StackMap.ClassFile
