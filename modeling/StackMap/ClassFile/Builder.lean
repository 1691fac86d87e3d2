import StackMap.Class
import StackMap.ClassFile.Pool

/-!
# `ClassFile.Builder`: making class files

A builder collects entries of a constant pool and methods, and writes them as a class file. Each step
gives the number of the entry that it adds; a text that is there already is not added again. Numbers
are kept in the width of their fields and wrap around there.

## Contents

* `Builder`, `Build`: the state of a builder, and steps that change it.
* `utf8`, `classRef`, …, `invokeDynamic`: entries of the constant pool.
* `addMethod`, `bytes`: methods, and the class file.
-/

namespace StackMap.ClassFile

/-- A row of the exception table; the catch type is a number in the pool. -/
structure HandlerRow where
  start : UInt16
  stop : UInt16
  handler : UInt16
  catchType : UInt16
  deriving Repr, DecidableEq

/-- A method to be written, with its code as bytes. -/
structure MethodBody where
  access : UInt16
  name : String
  desc : String
  maxStack : UInt16
  maxLocals : UInt16
  code : List UInt8
  handlers : List HandlerRow
  deriving Repr, DecidableEq

/-- **The state of a builder**: the bytes of the pool, the number of its next entry, the numbers of the
texts in it, and what else goes into the file. -/
structure Builder where
  name : String
  pool : Array UInt8 := #[]
  next : UInt16 := 1
  texts : List (String × UInt16) := []
  methods : List MethodBody := []
  bootstrap : List UInt16 := []

/-- Steps of a builder. -/
abbrev Build := StateM Builder

namespace Build

/-- Two bytes, the high one first. -/
def b2 (n : UInt16) : List UInt8 := [(n.toNat / 256).toUInt8, n.toNat.toUInt8]

/-- Four bytes, the high one first. -/
def b4 (n : UInt32) : List UInt8 := b2 (n.toNat / 65536).toUInt16 ++ b2 n.toNat.toUInt16

/-- Eight bytes, the high one first. -/
def b8 (n : UInt64) : List UInt8 := b4 (n.toNat / 0x100000000).toUInt32 ++ b4 n.toNat.toUInt32

/-- Adds an entry that takes the given number of places. -/
def entryOf (places : UInt16) (tag : UInt8) (data : List UInt8) : Build UInt16 := do
  let b ← get
  set { b with pool := b.pool.push tag ++ data, next := b.next + places }
  return b.next

/-- Adds an entry that takes one place. -/
def entry (tag : UInt8) (data : List UInt8) : Build UInt16 := entryOf 1 tag data

/-- The entry of a text, new if there is none. -/
def utf8 (s : String) : Build UInt16 := do
  match (← get).texts.lookup s with
  | some i => return i
  | none =>
    let data := Text.encode s.toList
    let i ← entry 1 (b2 data.length.toUInt16 ++ data)
    modify fun b => { b with texts := (s, i) :: b.texts }
    return i

/-- Adds a class. -/
def classRef (name : String) : Build UInt16 := do entry 7 (b2 (← utf8 name))

/-- Adds a string constant. -/
def string (s : String) : Build UInt16 := do entry 8 (b2 (← utf8 s))

/-- Adds an integer constant. -/
def integer (v : Int32) : Build UInt16 := entry 3 (b4 v.toUInt32)

/-- Adds a long constant. -/
def long (v : Int64) : Build UInt16 := entryOf 2 5 (b8 v.toUInt64)

/-- Adds a double constant. -/
def double (bits : UInt64) : Build UInt16 := entryOf 2 6 (b8 bits)

/-- Adds a name and a descriptor. -/
def nameAndType (name desc : String) : Build UInt16 := do
  let name ← utf8 name
  entry 12 (b2 name ++ b2 (← utf8 desc))

/-- Adds a reference to a member of a class. -/
def member (tag : UInt8) (owner name desc : String) : Build UInt16 := do
  let owner ← classRef owner
  entry tag (b2 owner ++ b2 (← nameAndType name desc))

/-- Adds a reference to a field. -/
def fieldRef (owner name desc : String) : Build UInt16 := member 9 owner name desc

/-- Adds a reference to a method. -/
def methodRef (owner name desc : String) : Build UInt16 := member 10 owner name desc

/-- Adds a method handle. -/
def methodHandle (kind : UInt8) (ref : UInt16) : Build UInt16 := entry 15 (kind :: b2 ref)

/-- Adds a bootstrap method without arguments and a call site that uses it. -/
def invokeDynamic (bootstrap : UInt16) (name desc : String) : Build UInt16 := do
  let index := (← get).bootstrap.length
  modify fun b => { b with bootstrap := b.bootstrap ++ [bootstrap] }
  entry 18 (b2 index.toUInt16 ++ b2 (← nameAndType name desc))

/-- Adds a method. -/
def addMethod (m : MethodBody) : Build Unit :=
  modify fun b => { b with methods := b.methods ++ [m] }

/-- The bytes of a method, given the numbers of its name, its descriptor and the text `Code`. -/
def methodBytes (m : MethodBody) (name desc code : UInt16) : List UInt8 :=
  let length := 12 + m.code.length + 8 * m.handlers.length
  b2 m.access ++ b2 name ++ b2 desc ++ b2 1 ++ b2 code ++ b4 length.toUInt32 ++ b2 m.maxStack ++
    b2 m.maxLocals ++ b4 m.code.length.toUInt32 ++ m.code ++ b2 m.handlers.length.toUInt16 ++
    m.handlers.flatMap (fun h => b2 h.start ++ b2 h.stop ++ b2 h.handler ++ b2 h.catchType) ++ b2 0

/-- The bytes of the attributes of the class: the bootstrap methods, if there are any. -/
def attributeBytes (bootstrap : List UInt16) (name : UInt16) : List UInt8 :=
  if bootstrap.isEmpty then b2 0
  else
    b2 1 ++ b2 name ++ b4 (2 + 4 * bootstrap.length).toUInt32 ++ b2 bootstrap.length.toUInt16 ++
      bootstrap.flatMap fun handle => b2 handle ++ b2 0

/-- **The class file**, written last. -/
def bytes : Build (List UInt8) := do
  let this ← classRef (← get).name
  let super ← classRef Class.rootName
  let code ← utf8 "Code"
  let bootstrapName ← utf8 "BootstrapMethods"
  let names ← (← get).methods.mapM fun m => do
    let name ← utf8 m.name
    return (m, name, ← utf8 m.desc)
  let b ← get
  return b4 0xCAFEBABE ++ b2 0 ++ b2 52 ++ b2 b.next ++ b.pool.toList ++ b2 0x21 ++ b2 this ++
    b2 super ++ b2 0 ++ b2 0 ++ b2 b.methods.length.toUInt16 ++
    names.flatMap (fun (m, name, desc) => methodBytes m name desc code) ++
    attributeBytes b.bootstrap bootstrapName

end Build

end StackMap.ClassFile
