import StackMap.ClassFile.Cursor
import StackMap.ClassFile.ModifiedUtf8
import StackMap.Code.Constant

/-!
# `ClassFile.Pool`: the constant pool

Class files refer to names, types and constants by their number in a table, the constant pool. Entries
refer to each other. Resolving a reference checks the kind of each entry on the way.

## Contents

* `Entry`, `BootstrapMethod`, `Pool`: the table.
* `readPool`: the table of a file.
* `Pool.utf8`, `Pool.className`, `Pool.nameAndType`, `Pool.member`, `Pool.handle`: names and members.
* `Pool.loadable`, `Pool.callSite`: constants and dynamic call sites.
-/

namespace StackMap.ClassFile

/-- **Entries of the constant pool.** The numbers in them refer to other entries. `unused` is the place
behind a number of eight bytes, which takes two. -/
inductive Entry where
  | unused
  | utf8 (text : String)
  | integer (bits : Nat)
  | float (bits : Nat)
  | long (bits : Nat)
  | double (bits : Nat)
  | classRef (name : Nat)
  | string (text : Nat)
  | fieldRef (owner nameAndType : Nat)
  | methodRef (owner nameAndType : Nat)
  | interfaceMethodRef (owner nameAndType : Nat)
  | nameAndType (name desc : Nat)
  | methodHandle (kind member : Nat)
  | methodType (desc : Nat)
  | dynamic (bootstrap nameAndType : Nat)
  | invokeDynamic (bootstrap nameAndType : Nat)
  | moduleRef (name : Nat)
  | packageRef (name : Nat)
  deriving Repr, DecidableEq

/-- The tag of an entry. -/
def Entry.tag : Entry → Nat
  | unused => 0
  | utf8 _ => 1
  | integer _ => 3
  | float _ => 4
  | long _ => 5
  | double _ => 6
  | classRef _ => 7
  | string _ => 8
  | fieldRef .. => 9
  | methodRef .. => 10
  | interfaceMethodRef .. => 11
  | nameAndType .. => 12
  | methodHandle .. => 15
  | methodType _ => 16
  | dynamic .. => 17
  | invokeDynamic .. => 18
  | moduleRef _ => 19
  | packageRef _ => 20

/-- Whether an entry takes the next place too. -/
def Entry.isWide : Entry → Bool
  | long _ | double _ => true
  | _ => false

/-- A bootstrap method: the handle to call and its arguments, by number in the pool. -/
structure BootstrapMethod where
  handle : Nat
  args : List Nat
  deriving Repr, DecidableEq

/-- **The constant pool**, with the bootstrap methods that its dynamic entries refer to. -/
structure Pool where
  entries : Array Entry
  bootstrap : List BootstrapMethod
  deriving Repr, DecidableEq

/-! ## Reading -/

/-- Reads the entry with the given number. -/
def readEntry (index : Nat) : Reader Entry := do
  let tag ← Reader.u1
  match tag with
  | 1 =>
    let length ← Reader.u2
    return .utf8 (ModifiedUtf8.decode (← Reader.bytes length))
  | 3 => return .integer (← Reader.u4)
  | 4 => return .float (← Reader.u4)
  | 5 =>
    let high ← Reader.u4
    return .long (high * 0x100000000 + (← Reader.u4))
  | 6 =>
    let high ← Reader.u4
    return .double (high * 0x100000000 + (← Reader.u4))
  | 7 => return .classRef (← Reader.u2)
  | 8 => return .string (← Reader.u2)
  | 9 =>
    let a ← Reader.u2
    return .fieldRef a (← Reader.u2)
  | 10 =>
    let a ← Reader.u2
    return .methodRef a (← Reader.u2)
  | 11 =>
    let a ← Reader.u2
    return .interfaceMethodRef a (← Reader.u2)
  | 12 =>
    let a ← Reader.u2
    return .nameAndType a (← Reader.u2)
  | 15 =>
    let kind ← Reader.u1
    return .methodHandle kind (← Reader.u2)
  | 16 => return .methodType (← Reader.u2)
  | 17 =>
    let a ← Reader.u2
    return .dynamic a (← Reader.u2)
  | 18 =>
    let a ← Reader.u2
    return .invokeDynamic a (← Reader.u2)
  | 19 => return .moduleRef (← Reader.u2)
  | 20 => return .packageRef (← Reader.u2)
  | tag => Reader.fail (.unknownTag tag index)

/-- Reads entries for `places` more places behind those read so far. -/
def readEntries : (places : Nat) → Array Entry → Reader (Array Entry)
  | 0, read => return read
  | places + 1, read => do
    let e ← readEntry read.size
    if e.isWide then
      match places with
      | 0 => return read.push e
      | places + 1 => readEntries places ((read.push e).push .unused)
    else readEntries places (read.push e)

/-- **Reads a constant pool.** Its first place is never used. -/
def readPool : Reader Pool := do
  let count ← Reader.u2
  if count = 0 then return ⟨#[], []⟩
  return ⟨← readEntries (count - 1) #[.unused], []⟩

/-! ## Resolving -/

namespace Pool

/-- The entry with a number. -/
def get (p : Pool) (i : Nat) : Except FormatError Entry :=
  if i = 0 then .error (.indexOutOfRange i)
  else match p.entries[i]? with
    | some e => .ok e
    | none => .error (.indexOutOfRange i)

/-- The text with a number. -/
def utf8 (p : Pool) (i : Nat) : Except FormatError String := do
  match ← p.get i with
  | .utf8 text => .ok text
  | e => .error (.wrongTag i e.tag [1])

/-- The name of a class. -/
def className (p : Pool) (i : Nat) : Except FormatError String := do
  match ← p.get i with
  | .classRef name => p.utf8 name
  | e => .error (.wrongTag i e.tag [7])

/-- A name and a descriptor. -/
def nameAndType (p : Pool) (i : Nat) : Except FormatError (String × String) := do
  match ← p.get i with
  | .nameAndType name desc =>
    let name ← p.utf8 name
    return (name, ← p.utf8 desc)
  | e => .error (.wrongTag i e.tag [12])

/-- A field or method: its owner, name and descriptor, and whether the owner is an interface. -/
structure Member where
  owner : String
  name : String
  desc : String
  itf : Bool
  deriving Repr, DecidableEq

/-- The member that an entry refers to. -/
def memberOf (p : Pool) (owner nameAndType : Nat) (itf : Bool) : Except FormatError Member := do
  let owner ← p.className owner
  let (name, desc) ← p.nameAndType nameAndType
  return ⟨owner, name, desc, itf⟩

/-- The member with a number, which has to be of one of the kinds with the given tags. -/
def member (p : Pool) (tags : List Nat) (i : Nat) : Except FormatError Member := do
  let e ← p.get i
  if tags.contains e.tag then
    match e with
    | .fieldRef owner nt => p.memberOf owner nt false
    | .methodRef owner nt => p.memberOf owner nt false
    | .interfaceMethodRef owner nt => p.memberOf owner nt true
    | _ => .error (.wrongTag i e.tag tags)
  else .error (.wrongTag i e.tag tags)

/-- A method handle. -/
def handle (p : Pool) (i : Nat) : Except FormatError Handle := do
  match ← p.get i with
  | .methodHandle kind ref =>
    let m ← p.member [9, 10, 11] ref
    return ⟨kind, m.owner, m.name, m.desc, m.itf⟩
  | e => .error (.wrongTag i e.tag [15])

/-- A bootstrap method with its arguments, each resolved by `load`. -/
def bootstrapWith (p : Pool) (load : Nat → Except FormatError Constant) (i : Nat) :
    Except FormatError (Handle × List Constant) :=
  match p.bootstrap[i]? with
  | none => .error (.bootstrapOutOfRange i)
  | some method => do
    let h ← p.handle method.handle
    return (h, ← method.args.mapM load)

/-- The constant with a number. What a dynamic constant takes as arguments is resolved by `load`. -/
def loadWith (p : Pool) (load : Nat → Except FormatError Constant) (i : Nat) :
    Except FormatError Constant := do
  match ← p.get i with
  | .integer bits => return .int (Int32.ofNat bits)
  | .float bits => return .float bits.toUInt32
  | .long bits => return .long (Int64.ofNat bits)
  | .double bits => return .double bits.toUInt64
  | .classRef name => return .type (Ty.ofClassName (← p.utf8 name))
  | .string text => return .string (Text.encode (← p.utf8 text).toList)
  | .methodType desc => return .type (.method (← p.utf8 desc))
  | .methodHandle _ _ => return .handle (← p.handle i)
  | .dynamic bootstrap nt =>
    let (name, desc) ← p.nameAndType nt
    let (h, args) ← p.bootstrapWith load bootstrap
    return .dynamic name desc (some h) args
  | e => .error (.wrongTag i e.tag [3, 4, 5, 6, 7, 8, 15, 16, 17])

/-- The constant with a number, through at most `depth` dynamic constants that are arguments of one
another. -/
def loadableWithin (p : Pool) : (depth : Nat) → Nat → Except FormatError Constant
  | 0, _ => .error .endlessConstant
  | depth + 1, i => p.loadWith (p.loadableWithin depth) i

/-- **The constant with a number.** Dynamic constants that are arguments of one another are all
different entries, unless one of them is an argument of itself and resolving it has no end. -/
def loadable (p : Pool) (i : Nat) : Except FormatError Constant :=
  p.loadableWithin (p.entries.size + 1) i

/-- A dynamic call site: its name and descriptor, and its bootstrap method. -/
def callSite (p : Pool) (i : Nat) :
    Except FormatError (String × String × Handle × List Constant) := do
  match ← p.get i with
  | .invokeDynamic bootstrap nt =>
    let (name, desc) ← p.nameAndType nt
    let (h, args) ← p.bootstrapWith p.loadable bootstrap
    return (name, desc, h, args)
  | e => .error (.wrongTag i e.tag [18])

end Pool

end StackMap.ClassFile
