/-!
# `Archive.Inflate`: compressed data

Data is compressed in blocks. A block is a copy of bytes, or a sequence of symbols under two prefix codes:
bytes, and references to a stretch of earlier output by its length and its distance. Codes are given by the
lengths of their words; words of one length are numbered in the order of their symbols, and shorter ones
come first.

## Contents

* `Archive.PrefixCode`: a prefix code; `PrefixCode.ofLengths?`: the code with given lengths.
* `Archive.BitReader`: reading bit by bit, the lowest bit of a byte first.
* `Archive.inflate?`: the data that was compressed.
-/

namespace StackMap.Archive

/-- **A prefix code**: for each length from one on the number of its words, and the symbols in the order of
their words. -/
structure PrefixCode where
  counts : List Nat
  symbols : Array Nat

/-- The longest word of a code. -/
def maxLength : Nat := 15

/-- The space that the words of a code take, if those of the greatest length take one unit each. -/
def spaceOf (counts : List Nat) : Nat :=
  counts.zipIdx.foldl (fun n (count, i) => n + count * Nat.pow 2 (maxLength - (i + 1))) 0

/-- Whether a code has a word for every start of a bit sequence. Two codes that do not are allowed as well:
the one without words, and the one with a single word of one bit. -/
def isComplete (counts : List Nat) : Bool :=
  counts.all (· == 0) || spaceOf counts == Nat.pow 2 maxLength ||
    (counts.head? == some 1 && counts.tail.all (· == 0))

/-- **The code with given lengths of the words** for the symbols from zero on. A length of zero stands for
no word. -/
def PrefixCode.ofLengths? (lengths : List Nat) : Option PrefixCode :=
  let sizes := (List.range maxLength).map (· + 1)
  let counts := sizes.map fun n => lengths.count n
  let symbols := sizes.flatMap fun n =>
    (lengths.zipIdx.filter fun (length, _) => length == n).map (·.2)
  if isComplete counts then some ⟨counts, symbols.toArray⟩ else none

/-- **Reading bit by bit**: the state is the number of bits that have been read. -/
abbrev BitReader := ReaderT (Array UInt8) (StateT Nat Option)

namespace BitReader

/-- The next bit. -/
def bit : BitReader Nat := do
  let data ← read
  let i ← get
  match data[i / 8]? with
  | none => failure
  | some b =>
    set (i + 1)
    return b.toNat / Nat.pow 2 (i % 8) % 2

/-- The number that the next bits spell, the lowest one first. -/
def bits : (count : Nat) → BitReader Nat
  | 0 => return 0
  | count + 1 => do
    let low ← bit
    return low + 2 * (← bits count)

/-- The bits up to the end of the byte are passed. -/
def align : BitReader Unit := modify fun i => (i + 7) / 8 * 8

/-- The symbol of the next word. `code` is what has been read of it, `first` the first word of the length
at hand, and `index` the number of shorter words. -/
def symbolFrom (symbols : Array Nat) (code first index : Nat) : (counts : List Nat) → BitReader Nat
  | [] => failure
  | count :: counts => do
    let code := code + (← bit)
    if code < first + count then
      match symbols[index + (code - first)]? with
      | some symbol => return symbol
      | none => failure
    else symbolFrom symbols (2 * code) (2 * (first + count)) (index + count) counts

/-- **The symbol of the next word** of a code. -/
def symbol (p : PrefixCode) : BitReader Nat := symbolFrom p.symbols 0 0 0 p.counts

end BitReader

open BitReader

/-- The smallest length for each symbol of a length, with the number of bits that are added to it. -/
def lengthCodes : Array (Nat × Nat) :=
  #[(3, 0), (4, 0), (5, 0), (6, 0), (7, 0), (8, 0), (9, 0), (10, 0), (11, 1), (13, 1), (15, 1), (17, 1),
    (19, 2), (23, 2), (27, 2), (31, 2), (35, 3), (43, 3), (51, 3), (59, 3), (67, 4), (83, 4), (99, 4),
    (115, 4), (131, 5), (163, 5), (195, 5), (227, 5), (258, 0)]

/-- The smallest distance for each symbol of a distance, with the number of bits that are added to it. -/
def distanceCodes : Array (Nat × Nat) :=
  #[(1, 0), (2, 0), (3, 0), (4, 0), (5, 1), (7, 1), (9, 2), (13, 2), (17, 3), (25, 3), (33, 4), (49, 4),
    (65, 5), (97, 5), (129, 6), (193, 6), (257, 7), (385, 7), (513, 8), (769, 8), (1025, 9), (1537, 9),
    (2049, 10), (3073, 10), (4097, 11), (6145, 11), (8193, 12), (12289, 12), (16385, 13), (24577, 13)]

/-- A number by its symbol and the bits that are added. -/
def extended (codes : Array (Nat × Nat)) (symbol : Nat) : BitReader Nat :=
  match codes[symbol]? with
  | some (base, extra) => return base + (← bits extra)
  | none => failure

/-- The output with a stretch of itself at its end, byte by byte, so that the stretch may overlap itself. -/
def copyBack (output : Array UInt8) (distance : Nat) : (length : Nat) → Array UInt8
  | 0 => output
  | length + 1 => copyBack (output.push (output[output.size - distance]?.getD 0)) distance length

/-- The output after the symbols of a block. -/
def blockSymbols (literals distances : PrefixCode) :
    (fuel : Nat) → (output : Array UInt8) → BitReader (Array UInt8)
  | 0, _ => failure
  | fuel + 1, output => do
    let s ← symbol literals
    if s < 256 then blockSymbols literals distances fuel (output.push s.toUInt8)
    else if s = 256 then return output
    else
      let length ← extended lengthCodes (s - 257)
      let distance ← extended distanceCodes (← symbol distances)
      if output.size < distance then failure
      else blockSymbols literals distances fuel (copyBack output distance length)

/-- The output after a copy of bytes. -/
def copyBytes : (count : Nat) → (output : Array UInt8) → BitReader (Array UInt8)
  | 0, output => return output
  | count + 1, output => do copyBytes count (output.push (← bits 8).toUInt8)

/-- The output after a block of copied bytes. Their number is said twice, the second time with all bits
changed. -/
def storedBlock (output : Array UInt8) : BitReader (Array UInt8) := do
  align
  let count ← bits 16
  let check ← bits 16
  if count + check = 0xFFFF then copyBytes count output else failure

/-- The code that both sides know. -/
def fixedLiterals : Option PrefixCode :=
  PrefixCode.ofLengths? (List.replicate 144 8 ++ List.replicate 112 9 ++ List.replicate 24 7 ++ List.replicate 8 8)

/-- The code for distances that both sides know. -/
def fixedDistances : Option PrefixCode := PrefixCode.ofLengths? (List.replicate 32 5)

/-- The order in which the lengths of the code for lengths are given. -/
def lengthOrder : List Nat := [16, 17, 18, 0, 8, 7, 9, 6, 10, 5, 11, 4, 12, 3, 13, 2, 14, 1, 15]

/-- Lengths under the code for lengths, the last one first, until there are `count` of them. -/
def codeLengths (code : PrefixCode) (count : Nat) : (fuel : Nat) → (lengths : List Nat) → BitReader (List Nat)
  | 0, _ => failure
  | fuel + 1, lengths => do
    if lengths.length = count then return lengths
    else if count < lengths.length then failure
    else
      let s ← symbol code
      let (value, times) ← if s < 16 then pure (s, 1)
        else if s = 16 then
          match lengths.head? with
          | some last => pure (last, 3 + (← bits 2))
          | none => failure
        else if s = 17 then pure (0, 3 + (← bits 3))
        else pure (0, 11 + (← bits 7))
      codeLengths code count fuel (List.replicate times value ++ lengths)

/-- The two codes of a block that brings its own. -/
def readCodes : BitReader (PrefixCode × PrefixCode) := do
  let literals := 257 + (← bits 5)
  let distances := 1 + (← bits 5)
  let count := 4 + (← bits 4)
  let given ← (lengthOrder.take count).mapM fun symbol => return (symbol, ← bits 3)
  let code ← PrefixCode.ofLengths? ((List.range 19).map fun symbol => (given.lookup symbol).getD 0)
  let lengths ← codeLengths code (literals + distances) (literals + distances + 1) []
  let lengths := lengths.reverse
  return (← PrefixCode.ofLengths? (lengths.take literals), ← PrefixCode.ofLengths? (lengths.drop literals))

/-- The output after all blocks from here on. -/
def blocks : (fuel : Nat) → (output : Array UInt8) → BitReader (Array UInt8)
  | 0, _ => failure
  | fuel + 1, output => do
    let last ← bit
    let size := (← read).size
    let output ← match ← bits 2 with
      | 0 => storedBlock output
      | 1 => blockSymbols (← fixedLiterals) (← fixedDistances) (8 * size + 1) output
      | 2 =>
        let (literals, distances) ← readCodes
        blockSymbols literals distances (8 * size + 1) output
      | _ => failure
    if last = 1 then return output else blocks fuel output

/-- **The data that was compressed**, if all of it is there. Every step of the reader passes a bit at least. -/
def inflate? (data : Array UInt8) : Option (Array UInt8) :=
  ((blocks (8 * data.size + 1) #[]).run data).run' 0

end StackMap.Archive
