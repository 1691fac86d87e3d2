import StackMap.Proofs.ClassFile.Layout
import StackMap.Proofs.ClassFile.RoundTrip

/-!
# `Proofs.ClassFile.CodeArray`: the code attributes that are accepted

Decoding a code array divides it into pieces, and there is only what the pieces say. A code attribute holds
the array, the rows of the exception table and further attributes, which are passed over. It is accepted if
everything that the instructions and the rows refer to is where a piece starts, or the end. What becomes
of the method is then given by these data alone.

## Contents

* `decodeAll_eq_ok_iff`: the instructions of a code array are those of its pieces.
* `CodeData`, `CodeData.Accepted`, `CodeData.into`: code attributes, which of them are accepted, and the
  method that is read.
* `readCode_eq_ok_iff`: reading the body of a method.
-/

namespace StackMap.ClassFile

open Reader Build

variable {pool : Pool} {block start stop : Nat} {pieces : List Piece}

/-! ## Code arrays -/

/-- The instruction of a piece is decoded at its offset. -/
theorem reads_piece {p : Piece} (h : Encodes pool p.offset p.bytes p.draft) :
    (decodeInsn pool block p.offset).Reads p.bytes (p.insn block, p.targets) := by
  have hread : (decodeInsn pool block p.offset).Reads _ _ := reads_decodeInsn h
  rwa [resolved, Draft.insn_map, Draft.targets_map] at hread

/-- **Pieces are decoded** one after the other. -/
theorem decodeFrom_of_tiled (h : Tiled pool start pieces stop) {fuel : Nat}
    (hfuel : (pieces.flatMap (·.bytes)).length ≤ fuel) :
    decodeFrom pool block fuel ⟨pieces.flatMap (·.bytes), start⟩ = .ok (pieces.map (·.placed block)) := by
  induction h generalizing fuel with
  | nil =>
    cases fuel with
    | zero => rfl
    | succ fuel => rfl
  | @cons p rest stop hencodes hrest ih =>
    have hpos := List.length_pos_iff.mpr hencodes.ne_nil
    rw [List.flatMap_cons, List.length_append] at hfuel
    obtain ⟨fuel, rfl⟩ : ∃ k, fuel = k + 1 := ⟨fuel - 1, by omega⟩
    have hsome : (p.bytes ++ rest.flatMap (·.bytes)).isEmpty = false := by
      obtain ⟨byte, tail, hbytes⟩ := List.exists_cons_of_ne_nil hencodes.ne_nil
      rw [hbytes]
      rfl
    have hinsn : decodeInsn pool block p.offset ⟨p.bytes ++ rest.flatMap (·.bytes), p.offset⟩ = _ :=
      reads_piece hencodes _ _
    have hrest : decodeFrom pool block fuel _ = _ := ih (by omega)
    unfold decodeFrom
    simp only [List.flatMap_cons, hsome, hinsn]
    rw [show p.offset + p.bytes.length = p.stop from rfl, hrest]
    rfl

/-- **What is decoded are pieces.** -/
theorem tiled_of_decodeFrom {fuel : Nat} {c : Cursor} {placed : List Placed}
    (hfuel : c.rest.length ≤ fuel) (h : decodeFrom pool block fuel c = .ok placed) :
    ∃ pieces, Tiled pool c.offset pieces (c.offset + c.rest.length) ∧
      pieces.flatMap (·.bytes) = c.rest ∧ placed = pieces.map (·.placed block) := by
  induction fuel generalizing c placed with
  | zero =>
    cases h
    obtain ⟨rest, offset⟩ := c
    obtain rfl := List.length_eq_zero_iff.mp (Nat.le_zero.mp hfuel)
    exact ⟨[], .nil, rfl, rfl⟩
  | succ fuel ih =>
    unfold decodeFrom at h
    split at h
    · rename_i hempty
      cases h
      obtain ⟨rest, offset⟩ := c
      obtain rfl := List.isEmpty_iff.mp hempty
      exact ⟨[], .nil, rfl, rfl⟩
    split at h
    · exact nomatch h
    rename_i insn refs next hinsn
    obtain ⟨used, hused, hoffset, d, hencodes, hresolved⟩ := spells_decodeInsn _ _ _ hinsn
    obtain ⟨rest, hrest, h⟩ := bind_eq_ok_iff.mp h
    cases h
    have hlength : c.rest.length = used.length + next.rest.length := by
      rw [hused, List.length_append]
    have hpos := List.length_pos_iff.mpr hencodes.ne_nil
    obtain ⟨pieces, htiled, hbytes, rfl⟩ := ih (by omega) hrest
    let p : Piece := ⟨c.offset, used, d⟩
    have hstop : next.offset = p.stop := hoffset
    rw [hstop, show p.stop + next.rest.length = c.offset + c.rest.length by
      simp only [p, Piece.stop]; omega] at htiled
    refine ⟨p :: pieces, .cons hencodes htiled, ?_, ?_⟩
    · rw [List.flatMap_cons, hbytes, hused]
    · rw [resolved, Draft.insn_map, Draft.targets_map, Prod.mk.injEq] at hresolved
      obtain ⟨rfl, rfl⟩ := hresolved
      rfl

/-- **The instructions of a code array** are those of the pieces that it falls into. -/
theorem decodeAll_eq_ok_iff {code : List UInt8} {placed : List Placed} :
    decodeAll pool block code = .ok placed ↔
      ∃ pieces, Tiled pool 0 pieces code.length ∧ pieces.flatMap (·.bytes) = code ∧
        placed = pieces.map (·.placed block) := by
  constructor
  · intro h
    obtain ⟨pieces, htiled, hbytes, hplaced⟩ := tiled_of_decodeFrom (c := ⟨code, 0⟩) (Nat.le_refl _) h
    rw [Nat.zero_add] at htiled
    exact ⟨pieces, htiled, hbytes, hplaced⟩
  · rintro ⟨pieces, htiled, rfl, rfl⟩
    exact decodeFrom_of_tiled htiled (Nat.le_refl _)

/-! ## Code attributes -/

/-- The class that a row of the exception table catches; the number 0 stands for everything. -/
def catchName (pool : Pool) (catchType : Nat) : Except FormatError String :=
  if catchType = 0 then .ok "" else pool.className catchType

/-- The exception handler of a row, given the class that it catches. -/
def HandlerRow.tryCatch (block : Nat) (row : HandlerRow) (type : String) : TryCatch :=
  ⟨labelAt block row.start.toNat, labelAt block row.stop.toNat, labelAt block row.handler.toNat, type⟩

/-- The offsets that a row refers to. -/
def HandlerRow.targets (row : HandlerRow) : List Int :=
  [(row.start.toNat : Int), row.stop.toNat, row.handler.toNat]

/-- **The data of a code attribute**: the code, the rows of the exception table with the classes that they
catch, and further attributes, each with the number of its name. -/
structure CodeData where
  maxStack : UInt16
  maxLocals : UInt16
  code : List UInt8
  rows : List (HandlerRow × String)
  attributes : List (UInt16 × List UInt8)

namespace CodeData

/-- The bytes of an attribute. -/
def attributeBytes (a : UInt16 × List UInt8) : List UInt8 := b2 a.1 ++ (b4 a.2.length.toUInt32 ++ a.2)

/-- **The bytes of a code attribute.** -/
def bytes (a : CodeData) : List UInt8 :=
  b2 a.maxStack ++ (b2 a.maxLocals ++ (b4 a.code.length.toUInt32 ++ (a.code ++
    (b2 a.rows.length.toUInt16 ++ (a.rows.flatMap (fun r => rowBytes r.1) ++
      (b2 a.attributes.length.toUInt16 ++ a.attributes.flatMap attributeBytes))))))

/-- **The numbers fit their fields.** -/
structure Fits (a : CodeData) : Prop where
  code : a.code.length < 0x100000000
  rows : a.rows.length < 65536
  attributes : a.attributes.length < 65536
  data : ∀ b ∈ a.attributes, b.2.length < 0x100000000

/-- The offsets that the instructions and the rows of the exception table refer to. -/
def refs (a : CodeData) (pieces : List Piece) : List Int :=
  pieces.flatMap (·.targets) ++ a.rows.flatMap (·.1.targets)

/-- **A code attribute that is accepted**: its code falls into pieces, the classes to catch are found in the
pool, and every offset that is referred to is the end or that of a piece. -/
structure Accepted (pool : Pool) (a : CodeData) (pieces : List Piece) : Prop where
  fits : a.Fits
  names : ∀ r ∈ a.rows, catchName pool r.1.catchType.toNat = .ok r.2
  tiled : Tiled pool 0 pieces a.code.length
  code : pieces.flatMap (·.bytes) = a.code
  refs : ∀ r ∈ a.refs pieces, ∃ offset : Nat, r = offset ∧
    (offset = a.code.length ∨ ∃ p ∈ pieces, p.offset = offset)

/-- The lines of the list of instructions. -/
def lines (a : CodeData) (pieces : List Piece) : List Line := linesOf (a.refs pieces) a.code.length pieces

/-- **The method that is read**, from the method before. -/
def into (block : Nat) (a : CodeData) (pieces : List Piece) (m : Method) : Method :=
  { m with
    maxStack := a.maxStack.toNat
    maxLocals := a.maxLocals.toNat
    insns := m.insns ++ (a.lines pieces).map (·.insn block)
    tryCatch := m.tryCatch ++ a.rows.map fun r => r.1.tryCatch block r.2 }

end CodeData

/-- No reference strays if each of them is to a piece or to the end. -/
theorem strayRef?_eq_none_iff {refs : List Int} :
    strayRef? (pieces.map (·.placed block)) stop refs = none ↔
      ∀ r ∈ refs, ∃ offset : Nat, r = offset ∧ (offset = stop ∨ ∃ p ∈ pieces, p.offset = offset) := by
  unfold strayRef?
  rw [List.find?_eq_none]
  refine forall₂_congr fun r _ => ?_
  simp only [List.any_map, Bool.and_eq_true, bne_iff_ne, ne_eq, Bool.not_eq_true', List.any_eq_false,
    Function.comp_apply, beq_iff_eq, not_and, not_forall, not_not]
  constructor
  · intro h
    by_cases hstop : r = stop
    · exact ⟨stop, hstop, .inl rfl⟩
    · obtain ⟨p, hp, hoffset⟩ := h hstop
      exact ⟨p.offset, hoffset.symm, .inr ⟨p, hp, rfl⟩⟩
  · rintro ⟨offset, rfl, rfl | ⟨p, hp, rfl⟩⟩ hne
    · exact absurd rfl hne
    · exact ⟨p, hp, rfl⟩

theorem reads_readHandler {row : HandlerRow} {type : String}
    (h : catchName pool row.catchType.toNat = .ok type) :
    (readHandler pool block).Reads (rowBytes row) (row.tryCatch block type, row.targets) := by
  unfold catchName at h
  refine (reads_u2 row.start).bind ((reads_u2 row.stop).bind ((reads_u2 row.handler).bind ?_))
  refine (reads_u2 row.catchType).before ?_
  split at h
  · rename_i hzero
    cases h
    rw [if_pos hzero]
    exact .after (.pure _) (.pure _)
  · rename_i hne
    rw [if_neg hne]
    exact .after (.ofExceptIn h) (.pure _)

theorem spells_readHandler :
    (readHandler pool block).Spells fun used a => ∃ r : HandlerRow × String, used = rowBytes r.1 ∧
      catchName pool r.1.catchType.toNat = .ok r.2 ∧ a = (r.1.tryCatch block r.2, r.1.targets) := by
  unfold readHandler
  refine spells_u2.bind ?_
  rintro start _ ⟨hstart, rfl⟩
  refine spells_u2.bind ?_
  rintro stop _ ⟨hstop, rfl⟩
  refine spells_u2.bind ?_
  rintro handler _ ⟨hhandler, rfl⟩
  refine spells_u2.bind ?_
  rintro catchType _ ⟨hcatchType, rfl⟩
  have htoNat : ∀ {n : Nat}, n < 65536 → n.toUInt16.toNat = n := fun h => UInt16.toNat_ofNat_of_lt' h
  have hrow : ∀ type, catchName pool catchType = .ok type → ∃ r : HandlerRow × String,
      b2 start.toUInt16 ++ (b2 stop.toUInt16 ++ (b2 handler.toUInt16 ++ (b2 catchType.toUInt16 ++ []))) =
        rowBytes r.1 ∧ catchName pool r.1.catchType.toNat = .ok r.2 ∧
      ((⟨labelAt block start, labelAt block stop, labelAt block handler, type⟩, [(start : Int), stop, handler])
        : TryCatch × List Int) = (r.1.tryCatch block r.2, r.1.targets) := by
    intro type htype
    refine ⟨(⟨start.toUInt16, stop.toUInt16, handler.toUInt16, catchType.toUInt16⟩, type), ?_, ?_, ?_⟩
    · rw [List.append_nil]
      rfl
    · rwa [htoNat hcatchType]
    · simp only [HandlerRow.tryCatch, HandlerRow.targets, htoNat hstart, htoNat hstop, htoNat hhandler]
  refine .ite (fun hzero => .pure (hrow "" (if_pos hzero))) fun hne => .map (.ofExceptIn fun type htype => ?_)
  exact hrow type ((if_neg hne).trans htype)

theorem reads_skipAttributes {attributes : List (UInt16 × List UInt8)}
    (hcount : attributes.length < 65536) (hdata : ∀ a ∈ attributes, a.2.length < 0x100000000) :
    skipAttributes.Reads (b2 attributes.length.toUInt16 ++ attributes.flatMap CodeData.attributeBytes)
      () := by
  refine (reads_u2_of_lt hcount).bind (.map (.times (g := fun _ => ()) fun a ha => ?_) _)
  exact (reads_skip (show (b2 a.1).length = 2 from rfl)).bind
    ((reads_u4_of_lt (hdata a ha)).bind (reads_skip rfl))

theorem spells_skipAttributes :
    skipAttributes.Spells fun used _ => ∃ attributes : List (UInt16 × List UInt8),
      used = b2 attributes.length.toUInt16 ++ attributes.flatMap CodeData.attributeBytes ∧
        attributes.length < 65536 ∧ ∀ a ∈ attributes, a.2.length < 0x100000000 := by
  have hattribute : Spells (do
      Reader.skip 2
      Reader.skip (← Reader.u4)) fun used (u : Unit) => ∃ a : UInt16 × List UInt8,
      used = CodeData.attributeBytes a ∧ a.2.length < 0x100000000 ∧ u = () := by
    refine (spells_skip 2).bind fun _ name hname => spells_u4.bind ?_
    rintro length _ ⟨hlength, rfl⟩
    refine (spells_skip length).mono ?_
    rintro data _ rfl
    obtain ⟨x, y, rfl⟩ := List.length_eq_two.mp hname
    refine ⟨((x.toNat * 256 + y.toNat).toUInt16, data), ?_, hlength, rfl⟩
    rw [CodeData.attributeBytes, b2_mul_add]
  unfold skipAttributes
  refine spells_u2.bind ?_
  rintro count _ ⟨hcount, rfl⟩
  refine .map ((hattribute.times_map count).mono ?_)
  rintro _ _ ⟨hlength, attributes, rfl, hdata, rfl⟩
  rw [List.length_map] at hlength
  exact ⟨attributes, by rw [hlength], hlength ▸ hcount, hdata⟩

namespace CodeData

variable (a : CodeData) (block : Nat) (pieces : List Piece)

/-- The rows as they are read. -/
abbrev handlers : List (TryCatch × List Int) := a.rows.map fun r => (r.1.tryCatch block r.2, r.1.targets)

theorem refs_eq :
    (pieces.map (·.placed block)).flatMap (·.refs) ++ (a.handlers block).flatMap (·.2) = a.refs pieces := by
  rw [List.flatMap_map, List.flatMap_map]
  rfl

theorem into_eq (m : Method) :
    ({ m with
      maxStack := a.maxStack.toNat
      maxLocals := a.maxLocals.toNat
      insns := m.insns ++ layOut block (pieces.map (·.placed block)) a.code.length (a.refs pieces)
      tryCatch := m.tryCatch ++ (a.handlers block).map (·.1) } : Method) = a.into block pieces m := by
  rw [layOut_eq, List.map_map]
  rfl

end CodeData

/-- **A code attribute that is accepted is read.** -/
theorem reads_readCode {a : CodeData} (h : a.Accepted pool pieces) (m : Method) :
    (readCode pool block m).Reads a.bytes (a.into block pieces m) := by
  have hplaced : decodeAll pool block a.code = .ok (pieces.map (·.placed block)) :=
    decodeAll_eq_ok_iff.mpr ⟨pieces, h.tiled, h.code, rfl⟩
  have hrows : ((readHandler pool block).times a.rows.length).Reads
      (a.rows.flatMap fun r => rowBytes r.1) (a.handlers block) :=
    .times fun r hr => reads_readHandler (h.names r hr)
  unfold readCode CodeData.bytes
  refine (reads_u2 _).bind ((reads_u2 _).bind ((reads_u4_of_lt h.fits.code).bind ?_))
  refine (reads_bytes rfl).bind (.after (.liftM hplaced) ?_)
  refine (reads_u2_of_lt h.fits.rows).bind (hrows.bind ?_)
  refine (reads_skipAttributes h.fits.attributes h.fits.data).before ?_
  simp only [CodeData.refs_eq, strayRef?_eq_none_iff.mpr h.refs, CodeData.into_eq]
  exact .pure _

/-- **What is read is a code attribute that is accepted.** -/
theorem spells_readCode (m : Method) :
    (readCode pool block m).Spells fun used m' => ∃ (a : CodeData) (pieces : List Piece),
      used = a.bytes ∧ a.Accepted pool pieces ∧ m' = a.into block pieces m := by
  unfold readCode
  refine spells_u2.bind ?_
  rintro maxStack _ ⟨hmaxStack, rfl⟩
  refine spells_u2.bind ?_
  rintro maxLocals _ ⟨hmaxLocals, rfl⟩
  refine spells_u4.bind ?_
  rintro length _ ⟨hlength, rfl⟩
  refine (spells_bytes length).bind ?_
  rintro code _ ⟨rfl, rfl⟩
  refine .after_liftM fun placed hplaced => ?_
  obtain ⟨pieces, htiled, rfl, rfl⟩ := decodeAll_eq_ok_iff.mp hplaced
  refine spells_u2.bind ?_
  rintro count _ ⟨hcount, rfl⟩
  refine ((spells_readHandler.times_map count).bind ?_)
  rintro _ _ ⟨rfl, rows, rfl, hnames, rfl⟩
  refine spells_skipAttributes.bind ?_
  rintro _ _ ⟨attributes, rfl, hattributes, hdata⟩
  rw [List.length_map] at hcount
  let a : CodeData := ⟨maxStack.toUInt16, maxLocals.toUInt16, pieces.flatMap (·.bytes), rows, attributes⟩
  have hrefs : (pieces.map (·.placed block)).flatMap (·.refs) ++
      (rows.map fun r => (r.1.tryCatch block r.2, r.1.targets)).flatMap (·.2) = a.refs pieces :=
    a.refs_eq block pieces
  dsimp only
  rw [hrefs]
  split
  · exact .throw
  rename_i hstray
  have haccepted : a.Accepted pool pieces :=
    ⟨⟨hlength, hcount, hattributes, hdata⟩, hnames, htiled, rfl, strayRef?_eq_none_iff.mp hstray⟩
  refine .pure ⟨a, pieces, ?_, haccepted, ?_⟩
  · simp [CodeData.bytes, a]
  · have hsizes : (a.maxStack.toNat = maxStack) ∧ a.maxLocals.toNat = maxLocals :=
      ⟨UInt16.toNat_ofNat_of_lt' hmaxStack, UInt16.toNat_ofNat_of_lt' hmaxLocals⟩
    rw [← a.into_eq block pieces m, hsizes.1, hsizes.2]

/-- **Reading the body of a method** succeeds on the code attributes that are accepted, whatever follows
them, and on nothing else. -/
theorem readCode_eq_ok_iff {m m' : Method} {data : List UInt8} :
    (readCode pool block m).runOn data = .ok m' ↔
      ∃ (a : CodeData) (pieces : List Piece) (rest : List UInt8),
        data = a.bytes ++ rest ∧ a.Accepted pool pieces ∧ m' = a.into block pieces m := by
  constructor
  · intro h
    obtain ⟨_, rest, rfl, a, pieces, rfl, haccepted, hm⟩ := (spells_readCode m).exists_of_runOn h
    exact ⟨a, pieces, rest, rfl, haccepted, hm⟩
  · rintro ⟨a, pieces, rest, rfl, haccepted, rfl⟩
    exact (reads_readCode haccepted m).runOn_append rest

end StackMap.ClassFile
