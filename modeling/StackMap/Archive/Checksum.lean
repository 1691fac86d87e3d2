/-!
# `Archive.Checksum`: the checksum of data

## Contents

* `Archive.checksum`: the remainder of data, taken as a polynomial over two elements, by the polynomial of
  degree 32 that archives use, the lowest bit first.
-/

namespace StackMap.Archive

/-- A division step: one bit goes out, and takes the polynomial with it if it is set. -/
def divideBit (n : UInt32) : UInt32 :=
  if n % 2 = 1 then (n >>> 1) ^^^ 0xEDB88320 else n >>> 1

/-- The remainder after a further byte. -/
def divideByte (n : UInt32) (b : UInt8) : UInt32 := Nat.repeat divideBit 8 (n ^^^ b.toUInt32)

/-- **The checksum of data.** -/
def checksum (data : List UInt8) : UInt32 := ~~~(data.foldl divideByte 0xFFFFFFFF)

end StackMap.Archive
