/-!
# `Text.Utf8`: texts as bytes

Texts are encoded in UTF-8. Decoding is tolerant: a byte that starts no well-formed sequence stands
alone, and decoding goes on behind it, so every byte string has exactly one reading.

## Contents

* `encode`, `size`: the encoding of a text and its length in bytes.
* `Piece`, `pieces`: the reading of a byte string as characters and stray bytes.
* `decodeLossy`: the same reading with U+FFFD in place of every stray byte.
-/

namespace StackMap.Text

/-- The UTF-8 encoding of a text. -/
def encode (s : List Char) : List UInt8 := s.flatMap String.utf8EncodeChar

/-- The length of a text in bytes. -/
def size : List Char → Nat
  | [] => 0
  | c :: s => c.utf8Size + size s

/-- The first byte of a character's encoding. -/
def firstByte (c : Char) : UInt8 := (String.utf8EncodeChar c).headD 0

/-- What decoding finds next: a character, or a byte that is part of none. -/
inductive Piece where
  | char (c : Char)
  | stray (b : UInt8)
  deriving Repr, DecidableEq

/-- The payload of a continuation byte. -/
def continuation? (b : UInt8) : Option Nat :=
  if b.toNat / 64 = 2 then some (b.toNat % 64) else none

/-- The character with code `n`, unless a shorter sequence is due to it (`n < least`) or it is no
character at all. -/
def scalar? (least n : Nat) : Option Char :=
  if h : least ≤ n ∧ n.isValidChar then some (Char.ofNatAux n h.2) else none

/-- The character whose encoding is `first` followed by a start of `rest`, and the number of bytes
of `rest` that belong to it. -/
def decodeFirst? (first : UInt8) (rest : List UInt8) : Option (Char × Nat) :=
  let n := first.toNat
  if n < 0x80 then (scalar? 0 n).map (·, 0)
  else if n < 0xC0 then none
  else if n < 0xE0 then do
    let c1 ← rest[0]? >>= continuation?
    return (← scalar? 0x80 (n % 32 * 64 + c1), 1)
  else if n < 0xF0 then do
    let c1 ← rest[0]? >>= continuation?
    let c2 ← rest[1]? >>= continuation?
    return (← scalar? 0x800 ((n % 16 * 64 + c1) * 64 + c2), 2)
  else if n < 0xF8 then do
    let c1 ← rest[0]? >>= continuation?
    let c2 ← rest[1]? >>= continuation?
    let c3 ← rest[2]? >>= continuation?
    return (← scalar? 0x10000 (((n % 8 * 64 + c1) * 64 + c2) * 64 + c3), 3)
  else none

/-- **Tolerant decoding**: the characters of a byte string, and the bytes that are part of none. -/
def pieces : List UInt8 → List Piece
  | [] => []
  | b :: rest =>
    match decodeFirst? b rest with
    | some (c, n) => .char c :: pieces (rest.drop n)
    | none => .stray b :: pieces rest
termination_by bytes => bytes.length
decreasing_by
  · simp only [List.length_drop, List.length_cons]; omega
  · simp

/-- The text of a byte string, with U+FFFD for every byte that is part of no character. -/
def decodeLossy (bytes : List UInt8) : List Char :=
  (pieces bytes).map fun
    | .char c => c
    | .stray _ => '\uFFFD'

/-- The text of a byte string, if all of it is well-formed. -/
def decode? (bytes : List UInt8) : Option (List Char) :=
  (pieces bytes).mapM fun
    | .char c => some c
    | .stray _ => none

end StackMap.Text
