import StackMap.Proofs.ClassFile.Encoding

/-!
# `Proofs.ClassFile.ModifiedUtf8`: texts of all characters

The encoding of class files has groups of one to three bytes, one group for each 16-bit unit, and a unit or a
pair of units for each character. A group starts with a byte that tells its length, and no unit of a character
is half of a pair unless it stands for one of the two. So texts are read back, whatever their characters.

Decoding goes through a byte string from the front. `scan?` does the same by position: it asks for each byte by
its number, and gives up as soon as it asks for one behind the last. It never does.

## Contents

* `units_encodeUnit`, `decodeUnits_unitsOf`: the groups and the units of a character are read back.
* `group?`, `scan?`: reading by position.
* `exists_group`: a group ends inside of the byte string, wherever it starts.
* `decode_inverts_and_stays_inside`: texts are read back, and all byte strings are read within their bounds.
-/

namespace StackMap.ClassFile.ModifiedUtf8

/-! ## Texts are read back -/

/-- **The group of a unit is read back**, whatever stands behind it. -/
theorem units_encodeUnit {u : Nat} (hu : u < 0x10000) (rest : List UInt8) :
    units (encodeUnit u ++ rest) = u :: units rest := by
  have hbyte : ∀ n, n < 256 → n.toUInt8.toNat = n := fun n hn => UInt8.toNat_ofNat_of_lt' hn
  unfold encodeUnit
  by_cases h1 : u ≠ 0 ∧ u < 0x80
  · have hfirst := hbyte u (by omega)
    rw [if_pos h1, List.singleton_append, units_one (by omega), hfirst]
  rw [if_neg h1]
  have hlast := hbyte (0x80 + u % 64) (by omega)
  -- Zero has a group of two bytes, which no other unit below 0x80 has.
  by_cases h2 : u < 0x800
  · have hfirst := hbyte (0xC0 + u / 64) (by omega)
    rw [if_pos h2, List.cons_append, List.singleton_append, units_two (by omega), hfirst, hlast]
    congr 1
    omega
  · have hfirst := hbyte (0xE0 + u / 4096) (by omega)
    have hsecond := hbyte (0x80 + u / 64 % 64) (by omega)
    rw [if_neg h2, List.cons_append, List.cons_append, List.singleton_append, units_three (by omega), hfirst,
      hsecond, hlast]
    congr 1
    omega

theorem toNat_lt (c : Char) : c.toNat < 0x110000 := by
  have hvalid : c.toNat < 0xd800 ∨ 0xdfff < c.toNat ∧ c.toNat < 0x110000 := c.valid
  omega

/-- The units of a character are numbers of 16 bits. -/
theorem unitsOf_lt {c : Char} {u : Nat} (h : u ∈ unitsOf c) : u < 0x10000 := by
  have hc := toNat_lt c
  unfold unitsOf at h
  split at h
  · rw [List.mem_singleton.mp h]
    assumption
  · rcases List.mem_pair.mp h with hu | hu
    · omega
    · omega

theorem units_flatMap_encodeUnit {us : List Nat} (h : ∀ u ∈ us, u < 0x10000) :
    units (us.flatMap encodeUnit) = us := by
  induction us with
  | nil => rw [List.flatMap_nil, units]
  | cons u us ih =>
    obtain ⟨hu, hus⟩ := List.forall_mem_cons.mp h
    rw [List.flatMap_cons, units_encodeUnit hu, ih hus]

/-- **The units of a character are read back**, whatever stands behind them. -/
theorem decodeUnits_unitsOf (c : Char) (us : List Nat) :
    decodeUnits (unitsOf c ++ us) = c :: decodeUnits us := by
  have hc := toNat_lt c
  unfold unitsOf
  by_cases hnarrow : c.toNat < 0x10000
  · rw [if_pos hnarrow, List.singleton_append, decodeUnits_cons]
  · rw [if_neg hnarrow]
    -- The first half is high and the second one low, so that the two are taken together.
    have hpair : (isHigh (0xD800 + (c.toNat - 0x10000) / 1024) &&
        isLow (0xDC00 + (c.toNat - 0x10000) % 1024)) = true := by
      simp only [isHigh, isLow, Bool.and_eq_true, decide_eq_true_eq]
      omega
    have hcode : 0x10000 + (0xD800 + (c.toNat - 0x10000) / 1024 - 0xD800) * 1024 +
        (0xDC00 + (c.toNat - 0x10000) % 1024 - 0xDC00) = c.toNat := by omega
    show decodeUnits (_ :: _ :: us) = _
    rw [decodeUnits, if_pos hpair, hcode, Char.ofNat_toNat]

theorem decodeUnits_flatMap_unitsOf (s : List Char) : decodeUnits (s.flatMap unitsOf) = s := by
  induction s with
  | nil => rfl
  | cons c s ih => rw [List.flatMap_cons, decodeUnits_unitsOf, ih]

/-- **Every text is read back.** -/
theorem decode_encode_eq (s : List Char) : decode (encode s) = String.ofList s := by
  have hlt : ∀ u ∈ s.flatMap unitsOf, u < 0x10000 := by
    intro u hu
    obtain ⟨c, -, hu⟩ := List.mem_flatMap.mp hu
    exact unitsOf_lt hu
  rw [decode, encode, units_flatMap_encodeUnit hlt, decodeUnits_flatMap_unitsOf]

/-! ## How long encodings are -/

theorem length_encodeUnit (u : Nat) :
    (encodeUnit u).length = if u ≠ 0 ∧ u < 0x80 then 1 else if u < 0x800 then 2 else 3 := by
  unfold encodeUnit
  split
  · rfl
  · split
    · rfl
    · rfl

/-- **The bytes of a character**: one in ASCII, but two for zero, up to three for a unit, and twice three for a
pair. -/
theorem length_encode_singleton (c : Char) :
    (encode [c]).length =
      if c.toNat = 0 then 2 else if c.toNat < 0x80 then 1 else if c.toNat < 0x800 then 2
        else if c.toNat < 0x10000 then 3 else 6 := by
  have hc := toNat_lt c
  rw [encode, List.flatMap_singleton, unitsOf]
  by_cases hnarrow : c.toNat < 0x10000
  · rw [if_pos hnarrow, List.flatMap_singleton, length_encodeUnit]
    split_ifs <;> omega
  · rw [if_neg hnarrow, List.flatMap_cons, List.flatMap_singleton, List.length_append, length_encodeUnit,
      length_encodeUnit]
    split_ifs <;> omega

/-! ## Reading by position -/

/-- **The group at a position**: its unit, and the position behind it. There is none if a byte is asked for that
is behind the last one. -/
def group? (bytes : List UInt8) (i : Nat) : Option (Nat × Nat) := do
  let a ← bytes[i]?
  if a.toNat < 0x80 then return (a.toNat, i + 1)
  else if a.toNat / 32 = 6 ∧ i + 1 < bytes.length then
    let b ← bytes[i + 1]?
    return (a.toNat % 32 * 64 + b.toNat % 64, i + 2)
  else if a.toNat / 16 = 14 ∧ i + 2 < bytes.length then
    let b ← bytes[i + 1]?
    let c ← bytes[i + 2]?
    return ((a.toNat % 16 * 64 + b.toNat % 64) * 64 + c.toNat % 64, i + 3)
  else return (replacement, i + 1)

/-- **The units from a position on**, in at most the given number of steps. There are none if the steps do not
suffice, or if a byte is asked for that is behind the last one. -/
def scan? (bytes : List UInt8) : (steps i : Nat) → Option (List Nat)
  | steps, i =>
    if bytes.length ≤ i then some []
    else match steps with
      | 0 => none
      | steps + 1 => do
        let (u, j) ← group? bytes i
        return u :: (← scan? bytes steps j)

/-- What stands in front of no group is replaced byte by byte. -/
theorem units_of_no_group {a : UInt8} {rest : List UInt8} (h1 : ¬ a.toNat < 0x80)
    (h2 : a.toNat / 32 = 6 → rest = []) (h3 : a.toNat / 16 = 14 → rest.length < 2) :
    units (a :: rest) = replacement :: units rest := by
  rw [units.eq_def]
  refine (if_neg h1).trans ?_
  by_cases htwo : a.toNat / 32 = 6
  · rw [h2 htwo, if_pos htwo, units]
  refine (if_neg htwo).trans ?_
  by_cases hthree : a.toNat / 16 = 14
  · have hshort := h3 hthree
    rw [if_pos hthree]
    cases rest with
    | nil => rfl
    | cons b rest =>
      cases rest with
      | nil => rfl
      | cons c rest =>
        simp only [List.length_cons] at hshort
        omega
  · exact if_neg hthree

/-- **A group ends inside of the byte string**, wherever it starts, and the units go on behind it. -/
theorem exists_group {bytes : List UInt8} {i : Nat} (hi : i < bytes.length) :
    ∃ u j, group? bytes i = some (u, j) ∧ i < j ∧ j ≤ bytes.length ∧
      units (bytes.drop i) = u :: units (bytes.drop j) := by
  have hdrop : bytes.drop i = bytes[i] :: bytes.drop (i + 1) := List.drop_eq_getElem_cons hi
  unfold group?
  rw [List.getElem?_eq_getElem hi, Option.bind_eq_bind, Option.bind_some]
  by_cases h1 : bytes[i].toNat < 0x80
  · rw [if_pos h1, hdrop, units_one h1]
    exact ⟨_, _, rfl, Nat.lt_succ_self i, hi, rfl⟩
  rw [if_neg h1]
  by_cases h2 : bytes[i].toNat / 32 = 6 ∧ i + 1 < bytes.length
  · rw [if_pos h2, List.getElem?_eq_getElem h2.2, hdrop, List.drop_eq_getElem_cons h2.2, units_two h2.1]
    exact ⟨_, _, rfl, by omega, h2.2, rfl⟩
  rw [if_neg h2]
  by_cases h3 : bytes[i].toNat / 16 = 14 ∧ i + 2 < bytes.length
  · -- The byte between exists, since the last one does.
    have hnext : i + 1 < bytes.length := by omega
    rw [if_pos h3, List.getElem?_eq_getElem hnext, List.getElem?_eq_getElem h3.2, hdrop,
      List.drop_eq_getElem_cons hnext, List.drop_eq_getElem_cons h3.2, units_three h3.1]
    exact ⟨_, _, rfl, by omega, h3.2, rfl⟩
  · rw [if_neg h3, hdrop]
    refine ⟨_, _, rfl, Nat.lt_succ_self i, hi, units_of_no_group h1 (fun htwo => ?_) fun hthree => ?_⟩
    · exact List.drop_eq_nil_of_le (Nat.not_lt.mp fun hlt => h2 ⟨htwo, hlt⟩)
    · have hlast : bytes.length ≤ i + 2 := Nat.not_lt.mp fun hlt => h3 ⟨hthree, hlt⟩
      rw [List.length_drop]
      omega

/-- **Reading by position gives the units**, in no more steps than there are bytes left. By induction on the
steps: each one takes a byte or more. -/
theorem scan?_eq_units {bytes : List UInt8} {steps i : Nat} (h : bytes.length - i ≤ steps) :
    scan? bytes steps i = some (units (bytes.drop i)) := by
  induction steps generalizing i with
  | zero =>
    have hend : bytes.length ≤ i := by omega
    rw [scan?, if_pos hend, List.drop_eq_nil_of_le hend, units]
  | succ steps ih =>
    by_cases hend : bytes.length ≤ i
    · rw [scan?, if_pos hend, List.drop_eq_nil_of_le hend, units]
    · obtain ⟨u, j, hgroup, hlt, hle, hunits⟩ := exists_group (Nat.not_le.mp hend)
      rw [scan?, if_neg hend, hgroup, hunits]
      show (scan? bytes steps j >>= fun us => some (u :: us)) = _
      rw [ih (by omega)]
      rfl

/-- **Texts are read back, and every byte string is read within its bounds.** Whatever its characters, decoding
gives a text back from its encoding, in which a character takes one byte in ASCII, two up to U+07FF and for zero,
three up to U+FFFF, and twice three beyond. And from each byte string, well-formed or not, the characters come in
at most as many steps as it has bytes, without a byte behind the last one being asked for. -/
theorem decode_inverts_and_stays_inside :
    (∀ s : List Char, decode (encode s) = String.ofList s) ∧
    (∀ c : Char, (encode [c]).length =
      if c.toNat = 0 then 2 else if c.toNat < 0x80 then 1 else if c.toNat < 0x800 then 2
        else if c.toNat < 0x10000 then 3 else 6) ∧
    ∀ bytes : List UInt8, ∃ us, scan? bytes bytes.length 0 = some us ∧
      decode bytes = String.ofList (decodeUnits us) := by
  refine ⟨decode_encode_eq, length_encode_singleton, fun bytes => ⟨units bytes, ?_, rfl⟩⟩
  exact scan?_eq_units (Nat.le_of_eq (Nat.sub_zero _))

/-- Groups that are cut off at the end are replaced byte by byte, and so is a half without its partner. -/
example : decodeUnits <$> scan? [0x61, 0xED, 0xA0, 0xBD, 0xE2, 0x82] 6 0 =
    some ['a', '\uFFFD', '\uFFFD', '\uFFFD'] := by
  decide

end StackMap.ClassFile.ModifiedUtf8
