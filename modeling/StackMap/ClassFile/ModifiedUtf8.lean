/-!
# `ClassFile.ModifiedUtf8`: texts in class files

Class files keep texts in 16-bit units, a supplementary character as a pair of surrogates, and each unit
in one to three bytes; the unit zero takes two, so that no byte is zero. Decoding accepts every byte
string: what starts no group becomes U+FFFD, and so does a surrogate without its partner.

## Contents

* `units`, `decodeUnits`, `decode`: from bytes to units, from units to characters, and both.
* `encodeUnit`, `unitsOf`, `encode`: the way back.
-/

namespace StackMap.ClassFile.ModifiedUtf8

/-- The code of the character that stands for what cannot be decoded. -/
def replacement : Nat := 0xFFFD

/-- **The 16-bit units of a byte string.** -/
def units : List UInt8 → List Nat
  | [] => []
  | a :: rest =>
    if a.toNat < 0x80 then a.toNat :: units rest
    else if a.toNat / 32 = 6 then
      match rest with
      | b :: rest' => (a.toNat % 32 * 64 + b.toNat % 64) :: units rest'
      | [] => [replacement]
    else if a.toNat / 16 = 14 then
      match rest with
      | b :: c :: rest' =>
        ((a.toNat % 16 * 64 + b.toNat % 64) * 64 + c.toNat % 64) :: units rest'
      | rest => replacement :: units rest
    else replacement :: units rest
termination_by bytes => bytes.length
decreasing_by all_goals (simp only [List.length_cons]; omega)

/-- Whether a unit is the first half of a pair. -/
def isHigh (u : Nat) : Bool := 0xD800 ≤ u && u < 0xDC00

/-- Whether a unit is the second half of a pair. -/
def isLow (u : Nat) : Bool := 0xDC00 ≤ u && u < 0xE000

/-- **The characters of units.** -/
def decodeUnits : List Nat → List Char
  | [] => []
  | [u] => [if isHigh u || isLow u then '\uFFFD' else Char.ofNat u]
  | u :: v :: rest =>
    if isHigh u && isLow v then
      Char.ofNat (0x10000 + (u - 0xD800) * 1024 + (v - 0xDC00)) :: decodeUnits rest
    else (if isHigh u || isLow u then '\uFFFD' else Char.ofNat u) :: decodeUnits (v :: rest)

/-- **The text of a byte string.** -/
def decode (bytes : List UInt8) : String := String.ofList (decodeUnits (units bytes))

/-- The units of a character. -/
def unitsOf (c : Char) : List Nat :=
  if c.toNat < 0x10000 then [c.toNat]
  else
    let n := c.toNat - 0x10000
    [0xD800 + n / 1024, 0xDC00 + n % 1024]

/-- The bytes of a unit. -/
def encodeUnit (u : Nat) : List UInt8 :=
  if u ≠ 0 ∧ u < 0x80 then [u.toUInt8]
  else if u < 0x800 then [(0xC0 + u / 64).toUInt8, (0x80 + u % 64).toUInt8]
  else [(0xE0 + u / 4096).toUInt8, (0x80 + u / 64 % 64).toUInt8, (0x80 + u % 64).toUInt8]

/-- **The bytes of a text.** -/
def encode (s : List Char) : List UInt8 := (s.flatMap unitsOf).flatMap encodeUnit

end StackMap.ClassFile.ModifiedUtf8
