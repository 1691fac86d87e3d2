import StackMap.ClassFile.Error

/-!
# `ClassFile.Cursor`: reading bytes in order

## Contents

* `Cursor`, `Reader`: a position in bytes, and computations that move it.
* `u1`, `u2`, `u4`, `s1`, `s2`, `s4`, `bytes`: numbers, the high byte first, and blocks of bytes. Reading
  past the end is an error.
* `times`: a reading repeated.
-/

namespace StackMap.ClassFile

/-- A position in a byte string: the bytes from there on, and their offset. -/
structure Cursor where
  rest : List UInt8
  offset : Nat

/-- Computations that read bytes. -/
abbrev Reader := StateT Cursor (Except ClassError)

namespace Reader

/-- Fails with an error that belongs to no part. -/
def fail {α : Type} (cause : FormatError) : Reader α := throw ⟨[], cause⟩

/-- An outcome that reads nothing. -/
def ofExcept {α : Type} : Except FormatError α → Reader α
  | .ok a => pure a
  | .error cause => fail cause

/-- An outcome that reads nothing, in a part of the file. -/
def ofExceptIn {α : Type} (part : Context) : Except FormatError α → Reader α
  | .ok a => pure a
  | .error cause => throw ⟨[part], cause⟩

/-- The result of reading a byte string from its start. -/
def runOn {α : Type} (r : Reader α) (data : List UInt8) : Except ClassError α :=
  match r ⟨data, 0⟩ with
  | .ok (a, _) => .ok a
  | .error e => .error e

/-- The offset of the next byte. -/
def offset : Reader Nat := return (← get).offset

/-- There are fewer than `n` bytes left. -/
def short {α : Type} (n : Nat) : Reader α := do
  let c ← get
  fail (.truncated n c.offset c.rest.length)

/-- An unsigned number of one byte. -/
def u1 : Reader Nat := do
  match (← get).rest with
  | a :: rest =>
    modify fun c => ⟨rest, c.offset + 1⟩
    return a.toNat
  | _ => short 1

/-- An unsigned number of two bytes. -/
def u2 : Reader Nat := do
  match (← get).rest with
  | a :: b :: rest =>
    modify fun c => ⟨rest, c.offset + 2⟩
    return a.toNat * 256 + b.toNat
  | _ => short 2

/-- An unsigned number of four bytes. -/
def u4 : Reader Nat := do
  match (← get).rest with
  | a :: b :: c :: d :: rest =>
    modify fun cursor => ⟨rest, cursor.offset + 4⟩
    return ((a.toNat * 256 + b.toNat) * 256 + c.toNat) * 256 + d.toNat
  | _ => short 4

/-- A number of `bits` bits in two's complement. -/
def signed (bits n : Nat) : Int := if n < Nat.pow 2 (bits - 1) then n else (n : Int) - Nat.pow 2 bits

/-- A signed number of one byte. -/
def s1 : Reader Int := return signed 8 (← u1)

/-- A signed number of two bytes. -/
def s2 : Reader Int := return signed 16 (← u2)

/-- A signed number of four bytes. -/
def s4 : Reader Int := return signed 32 (← u4)

/-- The next `n` bytes. -/
def bytes (n : Nat) : Reader (List UInt8) := do
  let c ← get
  let (block, rest) := c.rest.splitAt n
  if block.length = n then
    set (⟨rest, c.offset + n⟩ : Cursor)
    return block
  else short n

/-- Passes over `n` bytes. -/
def skip (n : Nat) : Reader Unit := do
  let _ ← bytes n

/-- A reading repeated `n` times. -/
def times {α : Type} (r : Reader α) : Nat → Reader (List α)
  | 0 => return []
  | n + 1 => do
    let a ← r
    return a :: (← times r n)

end Reader

end StackMap.ClassFile
