import StackMap.ClassFile.Builder
import StackMap.Proofs.ClassFile.Reader

/-!
# `Proofs.ClassFile.Encoding`: reading back what was written

A reader reads an encoding back if it gives the value in front of whatever follows, and leaves what
follows. This is closed under composition, so that it comes down to numbers of two and four bytes, to blocks
of bytes, and to texts. A text is written in UTF-8 and read in the encoding of class files; the two agree
on characters below U+10000. From entries it goes to a constant pool as a whole, in which the entries of
eight bytes take two places.

## Contents

* `Reader.Reads`: a value is read back.
* `reads_u2`, `reads_u4`, `reads_bytes`: numbers and blocks.
* `ModifiedUtf8.Plain`, `ModifiedUtf8.decode_encode`: texts.
* `Entry.bytes`, `Entry.Fits`, `reads_readEntry`: entries.
* `cells`, `reads_readPool`: constant pools.
-/

namespace StackMap.ClassFile

open Build

/-! ## Readers -/

namespace Reader

variable {α β ι : Type} {r : Reader α} {k : α → Reader β} {data data' : List UInt8} {a : α} {b : β}

/-- **A value is read back**: in front of whatever follows its encoding the reader gives it, and it leaves
what follows. -/
def Reads (r : Reader α) (data : List UInt8) (a : α) : Prop :=
  ∀ rest offset, r ⟨data ++ rest, offset⟩ = .ok (a, ⟨rest, offset + data.length⟩)

namespace Reads

theorem pure (a : α) : (Pure.pure a : Reader α).Reads [] a := fun _ _ => rfl

/-- **Encodings one behind the other** are read back one behind the other. -/
theorem bind (h : r.Reads data a) (hk : (k a).Reads data' b) : (r >>= k).Reads (data ++ data') b := by
  intro rest offset
  rw [List.append_assoc, bind_of_ok (h _ _), hk, List.length_append, Nat.add_assoc]

/-- A step that takes no bytes may come first. -/
theorem after (h : r.Reads [] a) (hk : (k a).Reads data b) : (r >>= k).Reads data b := h.bind hk

/-- A step that takes no bytes may come last. -/
theorem before (h : r.Reads data a) (hk : (k a).Reads [] b) : (r >>= k).Reads data b := by
  have hbind := h.bind hk
  rwa [List.append_nil] at hbind

/-- What is made of a value takes no bytes. -/
theorem map (h : r.Reads data a) (f : α → β) : (r >>= fun x => Pure.pure (f x)).Reads data (f a) :=
  h.before (pure (f a))

theorem ofExceptIn {part : Context} {x : Except FormatError α} (h : x = .ok a) :
    (ofExceptIn part x).Reads [] a := by
  rw [h]
  exact pure a

theorem liftM {x : Except ClassError α} (h : x = .ok a) :
    (MonadLiftT.monadLift x : Reader α).Reads [] a := by
  rw [h]
  exact pure a

/-- A repetition reads back a list of values. -/
theorem times {l : List ι} {f : ι → List UInt8} {g : ι → α} (h : ∀ x ∈ l, r.Reads (f x) (g x)) :
    (r.times l.length).Reads (l.flatMap f) (l.map g) := by
  induction l with
  | nil => exact pure []
  | cons x l ih =>
    rw [List.forall_mem_cons] at h
    exact h.1.bind ((ih h.2).map fun rest => g x :: rest)

theorem runOn_append (h : r.Reads data a) (rest : List UInt8) : r.runOn (data ++ rest) = .ok a := by
  unfold Reader.runOn
  rw [h]

theorem runOn (h : r.Reads data a) : r.runOn data = .ok a := by
  rw [← List.append_nil data]
  exact h.runOn_append []

end Reads

/-! ## Numbers and blocks -/

theorem reads_u1 (n : UInt8) : u1.Reads [n] n.toNat := fun _ _ => rfl

theorem toNat_b2 (n : UInt16) :
    (n.toNat / 256).toUInt8.toNat * 256 + n.toNat.toUInt8.toNat = n.toNat := by
  have hlt := n.toNat_lt
  simp only [Nat.toUInt8_eq, UInt8.toNat_ofNat']
  omega

theorem reads_u2 (n : UInt16) : u2.Reads (b2 n) n.toNat := by
  intro rest offset
  show Except.ok ((n.toNat / 256).toUInt8.toNat * 256 + n.toNat.toUInt8.toNat, _) = _
  rw [toNat_b2]
  rfl

theorem toNat_b4 (n : UInt32) :
    (n.toNat / 65536).toUInt16.toNat * 65536 + n.toNat.toUInt16.toNat = n.toNat := by
  have hlt := n.toNat_lt
  simp only [Nat.toUInt16_eq, UInt16.toNat_ofNat']
  omega

theorem u4_apply (a b c d : UInt8) (rest : List UInt8) (offset : Nat) :
    u4 ⟨a :: b :: c :: d :: rest, offset⟩ =
      .ok ((a.toNat * 256 + b.toNat) * 65536 + (c.toNat * 256 + d.toNat), ⟨rest, offset + 4⟩) := by
  have hvalue : ((a.toNat * 256 + b.toNat) * 256 + c.toNat) * 256 + d.toNat =
      (a.toNat * 256 + b.toNat) * 65536 + (c.toNat * 256 + d.toNat) := by omega
  rw [← hvalue]
  rfl

theorem reads_u4 (n : UInt32) : u4.Reads (b4 n) n.toNat := by
  intro rest offset
  show u4 ⟨_ :: _ :: _ :: _ :: rest, offset⟩ = _
  rw [u4_apply, toNat_b2, toNat_b2, toNat_b4]
  rfl

theorem reads_bytes {n : Nat} (h : data.length = n) : (bytes n).Reads data data :=
  fun rest offset => (takes_bytes h offset).whole rest

end Reader

open Reader

/-! ## Texts -/

namespace ModifiedUtf8

/-- **Texts that a class file can hold as they are**: no character needs two units, and the encoding has a
length of two bytes. -/
structure Plain (s : String) : Prop where
  narrow : ∀ c ∈ s.toList, c.toNat < 0x10000
  short : (Text.encode s.toList).length ≤ 65535

-- The characters of the text are gone through, not all characters there are.
instance (s : String) : Decidable (Plain s) :=
  decidable_of_iff
    (s.toList.all (fun c => decide (c.toNat < 0x10000)) ∧ (Text.encode s.toList).length ≤ 65535)
    ⟨fun ⟨narrow, short⟩ => ⟨fun c hc => of_decide_eq_true (List.all_eq_true.mp narrow c hc), short⟩,
      fun h => ⟨List.all_eq_true.mpr fun c hc => decide_eq_true (h.narrow c hc), h.short⟩⟩

theorem units_one {a : UInt8} (h : a.toNat < 0x80) (rest : List UInt8) :
    units (a :: rest) = a.toNat :: units rest := by
  rw [units.eq_def]
  exact if_pos h

theorem units_two {a : UInt8} (h : a.toNat / 32 = 6) (b : UInt8) (rest : List UInt8) :
    units (a :: b :: rest) = (a.toNat % 32 * 64 + b.toNat % 64) :: units rest := by
  rw [units.eq_def]
  exact (if_neg (by omega)).trans (if_pos h)

theorem units_three {a : UInt8} (h : a.toNat / 16 = 14) (b c : UInt8) (rest : List UInt8) :
    units (a :: b :: c :: rest) =
      ((a.toNat % 16 * 64 + b.toNat % 64) * 64 + c.toNat % 64) :: units rest := by
  rw [units.eq_def]
  exact (if_neg (by omega)).trans ((if_neg (by omega)).trans (if_pos h))

/-- The encoding of a character is one unit. -/
theorem units_encodeChar {c : Char} (hc : c.toNat < 0x10000) (rest : List UInt8) :
    units (String.utf8EncodeChar c ++ rest) = c.toNat :: units rest := by
  have hval : c.val.toNat = c.toNat := rfl
  have hbyte : ∀ n, n < 256 → (UInt8.ofNat n).toNat = n := fun n hn => UInt8.toNat_ofNat_of_lt' hn
  unfold String.utf8EncodeChar
  simp only [hval]
  -- One, two or three bytes; four would make a pair of units.
  by_cases h1 : c.toNat ≤ 0x7f
  · have hfirst := hbyte c.toNat (by omega)
    rw [if_pos h1, List.singleton_append, units_one (by omega), hfirst]
  rw [if_neg h1]
  have hlast := hbyte (c.toNat % 64 + 128) (by omega)
  by_cases h2 : c.toNat ≤ 0x7ff
  · have hfirst := hbyte (c.toNat / 64 % 32 + 192) (by omega)
    rw [if_pos h2, List.cons_append, List.singleton_append, units_two (by omega), hfirst, hlast]
    congr 1
    omega
  · have hfirst := hbyte (c.toNat / 4096 % 16 + 224) (by omega)
    have hsecond := hbyte (c.toNat / 64 % 64 + 128) (by omega)
    rw [if_neg h2, if_pos (by omega), List.cons_append, List.cons_append, List.singleton_append,
      units_three (by omega), hfirst, hsecond, hlast]
    congr 1
    omega

theorem units_encode {s : List Char} (h : ∀ c ∈ s, c.toNat < 0x10000) :
    units (Text.encode s) = s.map Char.toNat := by
  induction s with
  | nil => rw [Text.encode, List.flatMap_nil, units, List.map_nil]
  | cons c s ih =>
    rw [List.forall_mem_cons] at h
    show units (String.utf8EncodeChar c ++ Text.encode s) = _
    rw [units_encodeChar h.1, ih h.2, List.map_cons]

/-- No character is half of a pair. -/
theorem not_half (c : Char) : isHigh c.toNat = false ∧ isLow c.toNat = false := by
  have hvalid : c.toNat < 0xd800 ∨ 0xdfff < c.toNat ∧ c.toNat < 0x110000 := c.valid
  simp only [isHigh, isLow, Bool.and_eq_false_iff, decide_eq_false_iff_not]
  omega

theorem decodeUnits_cons (c : Char) (us : List Nat) :
    decodeUnits (c.toNat :: us) = c :: decodeUnits us := by
  obtain ⟨hhigh, hlow⟩ := not_half c
  cases us with
  | nil =>
    simp only [decodeUnits, hhigh, hlow, Bool.or_self, Bool.false_eq_true, if_false, Char.ofNat_toNat]
  | cons v rest =>
    simp only [decodeUnits, hhigh, hlow, Bool.false_and, Bool.or_self, Bool.false_eq_true, if_false,
      Char.ofNat_toNat]

theorem decodeUnits_map (s : List Char) : decodeUnits (s.map Char.toNat) = s := by
  induction s with
  | nil => rfl
  | cons c s ih => rw [List.map_cons, decodeUnits_cons, ih]

/-- **Texts without supplementary characters are read back.** -/
theorem decode_encode {s : String} (h : Plain s) : decode (Text.encode s.toList) = s := by
  rw [decode, units_encode h.narrow, decodeUnits_map, String.ofList_toList]

end ModifiedUtf8

/-! ## Entries -/

namespace Entry

/-- The encoding of an entry behind its tag. -/
def data : Entry → List UInt8
  | unused => []
  | utf8 text => b2 (Text.encode text.toList).length.toUInt16 ++ Text.encode text.toList
  | integer bits | float bits => b4 bits.toUInt32
  | long bits | double bits => b8 bits.toUInt64
  | classRef i | string i | methodType i | moduleRef i | packageRef i => b2 i.toUInt16
  | fieldRef i j | methodRef i j | interfaceMethodRef i j | nameAndType i j | dynamic i j
  | invokeDynamic i j => b2 i.toUInt16 ++ b2 j.toUInt16
  | methodHandle kind i => kind.toUInt8 :: b2 i.toUInt16

/-- **The encoding of an entry.** -/
def bytes (e : Entry) : List UInt8 := e.tag.toUInt8 :: e.data

/-- **An entry fits its fields.** -/
def Fits : Entry → Prop
  | unused => False
  | utf8 text => ModifiedUtf8.Plain text
  | integer bits | float bits => bits < 0x100000000
  | long bits | double bits => bits < 0x10000000000000000
  | classRef i | string i | methodType i | moduleRef i | packageRef i => i < 65536
  | fieldRef i j | methodRef i j | interfaceMethodRef i j | nameAndType i j | dynamic i j
  | invokeDynamic i j => i < 65536 ∧ j < 65536
  | methodHandle kind i => kind < 256 ∧ i < 65536

end Entry

theorem reads_u2_of_lt {n : Nat} (h : n < 65536) : u2.Reads (b2 n.toUInt16) n := by
  have hread := reads_u2 n.toUInt16
  rwa [Nat.toUInt16_eq, UInt16.toNat_ofNat_of_lt' h] at hread

theorem reads_u4_of_lt {n : Nat} (h : n < 0x100000000) : u4.Reads (b4 n.toUInt32) n := by
  have hread := reads_u4 n.toUInt32
  rwa [Nat.toUInt32_eq, UInt32.toNat_ofNat_of_lt' h] at hread

/-- A reference of an entry. -/
theorem reads_ref {i : Nat} (h : i < 65536) (f : Nat → Entry) :
    (do return f (← u2) : Reader Entry).Reads (b2 i.toUInt16) (f i) := (reads_u2_of_lt h).map f

/-- Two references of an entry. -/
theorem reads_refs {i j : Nat} (hi : i < 65536) (hj : j < 65536) (f : Nat → Nat → Entry) :
    (do
      let a ← u2
      return f a (← u2) : Reader Entry).Reads (b2 i.toUInt16 ++ b2 j.toUInt16) (f i j) :=
  (reads_u2_of_lt hi).bind (reads_ref hj (f i))

/-- A number of eight bytes, in two halves. -/
theorem reads_halves {n : Nat} (h : n < 0x10000000000000000) (f : Nat → Entry) :
    (do
      let high ← u4
      return f (high * 0x100000000 + (← u4)) : Reader Entry).Reads (b8 n.toUInt64) (f n) := by
  have hn : n.toUInt64.toNat = n := UInt64.toNat_ofNat_of_lt' h
  have hread := (reads_u4 (n.toUInt64.toNat / 0x100000000).toUInt32).bind
    (k := fun high => do return f (high * 0x100000000 + (← u4)))
    ((reads_u4 n.toUInt64.toNat.toUInt32).map fun low =>
      f ((n.toUInt64.toNat / 0x100000000).toUInt32.toNat * 0x100000000 + low))
  have hvalue : (n.toUInt64.toNat / 0x100000000).toUInt32.toNat * 0x100000000 +
      n.toUInt64.toNat.toUInt32.toNat = n := by
    rw [hn]
    simp only [Nat.toUInt32_eq, UInt32.toNat_ofNat']
    omega
  rwa [hvalue] at hread

theorem reads_text {s : String} (h : ModifiedUtf8.Plain s) :
    (do
      let length ← u2
      return .utf8 (ModifiedUtf8.decode (← Reader.bytes length)) : Reader Entry).Reads
      (Entry.utf8 s).data (.utf8 s) := by
  have hblock : (Reader.bytes (Text.encode s.toList).length).Reads (Text.encode s.toList)
      (Text.encode s.toList) := reads_bytes rfl
  have hbytes := hblock.map fun block => Entry.utf8 (ModifiedUtf8.decode block)
  rw [ModifiedUtf8.decode_encode h] at hbytes
  exact (reads_u2_of_lt (Nat.lt_succ_of_le h.short)).bind hbytes

/-- **Entries are read back.** -/
theorem reads_readEntry {e : Entry} (h : e.Fits) (index : Nat) : (readEntry index).Reads e.bytes e := by
  have htag : u1.Reads [e.tag.toUInt8] e.tag.toUInt8.toNat := reads_u1 _
  cases e with
  | unused => exact absurd h id
  | utf8 s => exact htag.bind (reads_text h)
  | integer bits => exact htag.bind ((reads_u4_of_lt h).map Entry.integer)
  | float bits => exact htag.bind ((reads_u4_of_lt h).map Entry.float)
  | long bits => exact htag.bind (reads_halves h .long)
  | double bits => exact htag.bind (reads_halves h .double)
  | classRef i => exact htag.bind (reads_ref h .classRef)
  | string i => exact htag.bind (reads_ref h .string)
  | fieldRef i j => exact htag.bind (reads_refs h.1 h.2 .fieldRef)
  | methodRef i j => exact htag.bind (reads_refs h.1 h.2 .methodRef)
  | interfaceMethodRef i j => exact htag.bind (reads_refs h.1 h.2 .interfaceMethodRef)
  | nameAndType i j => exact htag.bind (reads_refs h.1 h.2 .nameAndType)
  | methodHandle kind i =>
    have hkind := reads_u1 kind.toUInt8
    rw [Nat.toUInt8_eq, UInt8.toNat_ofNat_of_lt' h.1] at hkind
    exact htag.bind (hkind.bind (reads_ref h.2 (.methodHandle kind)))
  | methodType i => exact htag.bind (reads_ref h .methodType)
  | dynamic i j => exact htag.bind (reads_refs h.1 h.2 .dynamic)
  | invokeDynamic i j => exact htag.bind (reads_refs h.1 h.2 .invokeDynamic)
  | moduleRef i => exact htag.bind (reads_ref h .moduleRef)
  | packageRef i => exact htag.bind (reads_ref h .packageRef)

/-! ## Constant pools -/

/-- The places that an entry takes. -/
def Entry.cells (e : Entry) : List Entry := if e.isWide then [e, .unused] else [e]

/-- **The places of a pool** behind the first one, which is never used. -/
def cells (es : List Entry) : List Entry := es.flatMap Entry.cells

theorem cells_append (es es' : List Entry) : cells (es ++ es') = cells es ++ cells es' :=
  List.flatMap_append

theorem reads_readEntries {es : List Entry} (h : ∀ e ∈ es, e.Fits) (read : Array Entry) :
    (readEntries (cells es).length read).Reads (es.flatMap Entry.bytes)
      (read ++ (cells es).toArray) := by
  induction es generalizing read with
  | nil =>
    show (Pure.pure read : Reader _).Reads [] (read ++ #[])
    rw [Array.append_empty]
    exact .pure read
  | cons e es ih =>
    rw [List.forall_mem_cons] at h
    have hcells : cells (e :: es) = e.cells ++ cells es := rfl
    rw [hcells, List.flatMap_cons]
    by_cases hwide : e.isWide
    · -- The place behind the entry is passed over by both sides.
      have hcell : e.cells = [e, .unused] := if_pos hwide
      rw [hcell]
      refine (reads_readEntry h.1 read.size).bind ?_
      rw [if_pos hwide]
      have hrest := ih h.2 ((read.push e).push .unused)
      rwa [show (read.push e).push .unused ++ (cells es).toArray =
        read ++ ([e, .unused] ++ cells es).toArray by simp] at hrest
    · have hcell : e.cells = [e] := if_neg hwide
      rw [hcell, List.length_append, List.length_singleton, Nat.add_comm, readEntries]
      refine (reads_readEntry h.1 read.size).bind ?_
      rw [if_neg hwide]
      have hrest := ih h.2 (read.push e)
      rwa [show read.push e ++ (cells es).toArray = read ++ ([e] ++ cells es).toArray by simp] at hrest

/-- The pool with the given entries. -/
def poolOf (es : List Entry) : Pool := ⟨(.unused :: cells es).toArray, []⟩

/-- **A constant pool is read back** if the number of its places fits its field. -/
theorem reads_readPool {es : List Entry} {count : UInt16} (h : ∀ e ∈ es, e.Fits)
    (hcount : count.toNat = (cells es).length + 1) :
    readPool.Reads (b2 count ++ es.flatMap Entry.bytes) (poolOf es) := by
  refine (reads_u2 count).bind ?_
  rw [hcount]
  show (readEntries (cells es).length #[.unused] >>= fun entries => Pure.pure (Pool.mk entries [])).Reads
    _ _
  have hread := (reads_readEntries h #[.unused]).map fun entries => Pool.mk entries []
  rwa [show #[Entry.unused] ++ (cells es).toArray = (.unused :: cells es).toArray by simp] at hread

end StackMap.ClassFile
