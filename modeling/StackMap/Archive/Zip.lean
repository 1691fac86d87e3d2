import StackMap.Archive.Checksum
import StackMap.Archive.Inflate
import StackMap.FileTree
import StackMap.Text.Utf8

/-!
# `Archive.Zip`: archives

An archive holds files one behind the other, each after a header of its own, then a directory with a
header for each file, and at its end a record that says where the directory is. A reader starts from the
end.

## Contents

* `Archive.Member`: a file of an archive.
* `Archive.write`: the archive of members, without compression.
* `Archive.read`: the members of an archive.
* `Archive.entries`: the files of an archive by their places, in the order of a walk.
-/

namespace StackMap.Archive

/-- Why an archive cannot be read. -/
inductive Error where
  | format
  | algorithm
  | checksum
  | truncated
  | corrupt
  | duplicate (name : String)
  deriving Repr, DecidableEq

/-- The wording of an `Error`. -/
def Error.message : Error → String
  | .format => "zip: not a valid zip file"
  | .algorithm => "zip: unsupported compression algorithm"
  | .checksum => "zip: checksum error"
  | .truncated => "unexpected EOF"
  | .corrupt => "flate: corrupt input"
  | .duplicate name => name ++ ": duplicate entries in zip file"

/-- The signature of the header in front of a file. -/
def localMark : Nat := 0x04034b50

/-- The signature of the header of a file in the directory. -/
def directoryMark : Nat := 0x02014b50

/-- The signature of the record at the end. -/
def endMark : Nat := 0x06054b50

/-! ## Writing -/

/-- A number in two bytes, the lower one first. -/
def le2 (n : Nat) : List UInt8 := [n.toUInt8, (n / 256).toUInt8]

/-- A number in four bytes, the lowest one first. -/
def le4 (n : Nat) : List UInt8 := le2 n ++ le2 (n / 65536)

/-- The part that the two headers of a file share: versions, method and times, then checksum, sizes and
length of the name. -/
def commonHeader (name data : List UInt8) : List UInt8 :=
  le2 20 ++ le2 0x800 ++ le2 0 ++ le2 0 ++ le2 0x21 ++ le4 (checksum data).toNat ++ le4 data.length ++
    le4 data.length ++ le2 name.length ++ le2 0

/-- A file with its header. -/
def localPart (name data : List UInt8) : List UInt8 :=
  le4 localMark ++ commonHeader name data ++ name ++ data

/-- The header of a file in the directory, with the offset of the file. -/
def directoryPart (name data : List UInt8) (offset : Nat) : List UInt8 :=
  le4 directoryMark ++ le2 20 ++ commonHeader name data ++ le2 0 ++ le2 0 ++ le2 0 ++ le4 0 ++ le4 offset ++ name

/-- The files and the directory of members, the first of which is at `offset`. -/
def parts (offset : Nat) : List (String × List UInt8) → List UInt8 × List UInt8
  | [] => ([], [])
  | (name, data) :: more =>
    let name := Text.encode name.toList
    let file := localPart name data
    let (files, directory) := parts (offset + file.length) more
    (file ++ files, directoryPart name data offset ++ directory)

/-- **The archive of files**, without compression. -/
def write (members : List (String × List UInt8)) : List UInt8 :=
  let (files, directory) := parts 0 members
  files ++ directory ++ le4 endMark ++ le2 0 ++ le2 0 ++ le2 members.length ++ le2 members.length ++
    le4 directory.length ++ le4 files.length ++ le2 0

/-! ## Reading -/

/-- The number in the two bytes at an offset. -/
def u2? (a : Array UInt8) (i : Nat) : Option Nat := do
  return (← a[i]?).toNat + 256 * (← a[i + 1]?).toNat

/-- The number in the four bytes at an offset. -/
def u4? (a : Array UInt8) (i : Nat) : Option Nat := do
  return (← u2? a i) + 65536 * (← u2? a (i + 2))

/-- The length of the record at the end without its comment. -/
def endLength : Nat := 22

/-- How far from the end the record may begin. -/
def endReach : Nat := 66560

/-- The last offset up to the given one at which the record at the end begins. Its comment has to fit. -/
def findEnd? (a : Array UInt8) : (i : Nat) → Option Nat
  | 0 => check 0
  | i + 1 => if u4? a (i + 1) = some endMark then check (i + 1) else findEnd? a i
where
  /-- An offset at which the record stands with all of its comment. -/
  check (i : Nat) : Option Nat := do
    let comment ← u2? a (i + 20)
    if u4? a i = some endMark ∧ i + endLength + comment ≤ a.size ∧ a.size ≤ i + endReach then some i
    else none

/-- A file of an archive by its header in the directory. -/
structure Member where
  name : String
  method : Nat
  checksum : Nat
  packed : Nat
  size : Nat
  offset : Nat
  deriving Repr, DecidableEq

/-- The member whose header in the directory is at an offset, and the offset behind that header. -/
def member? (a : Array UInt8) (i : Nat) : Option (Member × Nat) := do
  if (← u4? a i) ≠ directoryMark then none
  else
    let name ← u2? a (i + 28)
    let extra ← u2? a (i + 30)
    let comment ← u2? a (i + 32)
    let stop := i + 46 + name + extra + comment
    if a.size < stop then none
    else
      let text := Text.decodeLossy (a.extract (i + 46) (i + 46 + name)).toList
      return ({
        name := String.ofList text
        method := ← u2? a (i + 10)
        checksum := ← u4? a (i + 16)
        packed := ← u4? a (i + 20)
        size := ← u4? a (i + 24)
        offset := ← u4? a (i + 42) }, stop)

/-- The members from an offset on. There are at most as many as there are bytes. -/
def membersFrom (a : Array UInt8) : (fuel : Nat) → (i : Nat) → List Member
  | 0, _ => []
  | fuel + 1, i =>
    match member? a i with
    | some (m, next) => m :: membersFrom a fuel next
    | none => []

/-- **The members of an archive** by its directory. The offsets that it states may be off by the length of
something in front of the archive. -/
def read (a : Array UInt8) : Except Error (List Member) :=
  match findEnd? a (a.size - endLength) with
  | none => .error .format
  | some i =>
    match u2? a (i + 10), u4? a (i + 12), u4? a (i + 16) with
    | some count, some size, some offset =>
      if i < size + offset then .error .format
      else
        let ahead := i - size - offset
        let ahead := if (member? a offset).isSome then 0 else ahead
        let members := membersFrom a a.size (ahead + offset)
        if members.length % 65536 ≠ count then .error .format
        else .ok (members.map fun m => { m with offset := m.offset + ahead })
    | _, _, _ => .error .format

/-- The data of a member as it is kept in the archive. -/
def packedData? (a : Array UInt8) (m : Member) : Option (Array UInt8) := do
  if (← u4? a m.offset) ≠ localMark then none
  else
    let start := m.offset + 30 + (← u2? a (m.offset + 26)) + (← u2? a (m.offset + 28))
    return a.extract start (start + m.packed)

/-- The data of a member without compression, by its method. -/
def unpack (method : Nat) (data : Array UInt8) : Except Error (Array UInt8) :=
  if method = 0 then .ok data
  else if method = 8 then
    match inflate? data with
    | some data => .ok data
    | none => .error .corrupt
  else .error .algorithm

/-- **The contents of a member**, with its checksum checked. -/
def contents (a : Array UInt8) (m : Member) : Except Error (List UInt8) :=
  match packedData? a m with
  | none => .error .format
  | some packed => do
    let data ← unpack m.method packed
    if data.size ≠ m.size then throw .truncated
    let data := data.toList
    if (checksum data).toNat ≠ m.checksum then throw .checksum
    return data

/-! ## Members as files -/

/-- The place of a member: its cleaned name, without the root and without steps up at its start. -/
def placeOf (name : String) : List String :=
  let slashes := name.toList.map fun c => if c = '\\' then '/' else c
  (Path.parts (String.ofList slashes)).dropWhile fun part => part = "/" || part = ".."

/-- Whether a member is a directory. -/
def Member.isDirectory (m : Member) : Bool := m.name.toList.getLast? == some '/'

/-- The places that an archive names more than once, or that are a file and a directory at the same time. -/
def clashes (members : List Member) : List (List String) :=
  let places := (members.map fun m => (placeOf m.name, m.isDirectory)).filter (!·.1.isEmpty)
  (places.zipIdx.filter fun ((place, isDirectory), i) =>
    (places.take i).any (·.1 == place) ||
      (!isDirectory && places.any fun (other, _) => place.isPrefixOf other && other != place)).map (·.1.1)

/-- The order in which a walk meets two names, directory by directory. -/
def listingLe (a b : List String) : Bool :=
  if a.dropLast == b.dropLast then FileTree.walkLe a b else FileTree.walkLe a.dropLast b.dropLast

/-- **The files of an archive** by their places, in the order of a walk. A name that comes twice ends it. -/
def entries (a : Array UInt8) : Except Error (List (List String × Except Error (List UInt8))) := do
  let members ← read a
  match ((clashes members).mergeSort listingLe).head? with
  | some place => throw (.duplicate (Path.ofParts place))
  | none =>
    let files := members.filter fun m => !m.isDirectory && !(placeOf m.name).isEmpty
    let placed := files.map fun m => (placeOf m.name, contents a m)
    return placed.mergeSort fun x y => FileTree.walkLe x.1 y.1

end StackMap.Archive
