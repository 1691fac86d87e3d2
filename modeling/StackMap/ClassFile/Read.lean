import StackMap.Class
import StackMap.ClassFile.Code

/-!
# `ClassFile.Read`: class files

A class file holds a constant pool, the names of the class and of what it extends and implements, its
fields, its methods, and attributes. Of these the reader keeps the code of methods and the bootstrap
methods of the class.

## Contents

* `readField`, `readMethod`, `readHeader`, `readClassAttributes`: the parts of a file.
* `decodeMethod`: the code of a method.
* `parse`: the class that a byte string holds. What follows the class is ignored.
-/

namespace StackMap.ClassFile

/-- The number in front of every class file. -/
def magic : Nat := 0xCAFEBABE

/-- Reads a field. -/
def readField (pool : Pool) : Reader Field := do
  let access ← Reader.u2
  let name ← Reader.ofExceptIn .fieldName (pool.utf8 (← Reader.u2))
  let desc ← Reader.ofExceptIn (.field name) (pool.utf8 (← Reader.u2))
  skipAttributes
  return ⟨access, name, desc⟩

/-- A method whose code has not been decoded. -/
structure RawMethod where
  access : Nat
  name : String
  desc : String
  codes : List (List UInt8)

/-- Reads an attribute of a method: its name and its data. -/
def readMethodAttribute (pool : Pool) (method : String) : Reader (String × List UInt8) := do
  let name ← match pool.utf8 (← Reader.u2) with
    | .ok name => pure name
    | .error cause => throw ⟨[.method method, .attributeName], cause⟩
  return (name, ← Reader.bytes (← Reader.u4))

/-- Reads a method. -/
def readMethod (pool : Pool) : Reader RawMethod := do
  let access ← Reader.u2
  let name ← Reader.ofExceptIn .methodName (pool.utf8 (← Reader.u2))
  let desc ← Reader.ofExceptIn (.method name) (pool.utf8 (← Reader.u2))
  let attributes ← Reader.times (readMethodAttribute pool (name ++ desc)) (← Reader.u2)
  return ⟨access, name, desc, (attributes.filter (·.1 == "Code")).map (·.2)⟩

/-- Reads the bootstrap methods in the data of their attribute. -/
def readBootstrapMethods : Reader (List BootstrapMethod) := do
  Reader.times (do
    let handle ← Reader.u2
    return ⟨handle, ← Reader.times Reader.u2 (← Reader.u2)⟩) (← Reader.u2)

/-- Reads the number of a name. If the file ends there the number is zero, which is no name. -/
def nameIndex : Reader Nat := do
  match (← get).rest with
  | _ :: _ :: _ => Reader.u2
  | _ => return 0

/-- Reads the name of an attribute of the class. -/
def readAttributeName (pool : Pool) : Reader String := do
  Reader.ofExceptIn .attributeName (pool.utf8 (← nameIndex))

/-- The pool behind an attribute of the class with the given name and data: a table of bootstrap methods
replaces the one before. -/
def withAttribute (pool : Pool) (name : String) (data : List UInt8) : Except ClassError Pool :=
  if name = "BootstrapMethods" then
    match readBootstrapMethods.runOn data with
    | .ok bootstrap => .ok { pool with bootstrap }
    | .error e => .error (e.inside (.attribute name))
  else .ok pool

/-- Reads an attribute of the class. -/
def readClassAttribute (pool : Pool) : Reader Pool := do
  let name ← readAttributeName pool
  let data ← Reader.bytes (← Reader.u4)
  liftM (withAttribute pool name data)

/-- Reads the attributes of the class. -/
def readClassAttributes (pool : Pool) : (count : Nat) → Reader Pool
  | 0 => return pool
  | count + 1 => do readClassAttributes (← readClassAttribute pool) count

/-- Decodes the code blocks of a method from the given number on. -/
def decodeBlocks (pool : Pool) : (block : Nat) → List (List UInt8) → Method → Except ClassError Method
  | _, [], m => .ok m
  | block, code :: rest, m =>
    match (readCode pool block m).runOn code with
    | .ok m' => decodeBlocks pool (block + 1) rest m'
    | .error e => .error (e.inside (.method (m.name ++ m.desc)))

/-- Decodes the code of a method. -/
def decodeMethod (pool : Pool) (raw : RawMethod) : Except ClassError Method :=
  decodeBlocks pool 0 raw.codes ⟨raw.access, raw.name, raw.desc, 0, 0, #[], []⟩

/-- What stands in front of the attributes of a class: everything but the code of its methods, and the
number of the attributes. -/
structure Header where
  pool : Pool
  minor : Nat
  major : Nat
  access : Nat
  name : String
  super : String
  interfaces : List String
  fields : List Field
  raws : List RawMethod
  attributes : Nat

/-- Reads what stands in front of the attributes of a class. -/
def readHeader : Reader Header := do
  let m ← Reader.u4
  if m ≠ magic then Reader.fail (.badMagic m)
  let minor ← Reader.u2
  let major ← Reader.u2
  let pool ← readPool
  let access ← Reader.u2
  let name ← Reader.ofExceptIn .thisClass (pool.className (← Reader.u2))
  let superIndex ← Reader.u2
  let super ← if superIndex = 0 then pure ""
    else Reader.ofExceptIn .superClass (pool.className superIndex)
  let interfaces ← Reader.times
    (do Reader.ofExceptIn .interfaces (pool.className (← Reader.u2))) (← Reader.u2)
  let fields ← Reader.times (readField pool) (← Reader.u2)
  let raws ← Reader.times (readMethod pool) (← Reader.u2)
  let attributes ← Reader.u2
  return ⟨pool, minor, major, access, name, super, interfaces, fields, raws, attributes⟩

/-- Reads a class. The code of its methods is decoded last, since that needs the bootstrap methods. -/
def readClass : Reader Class := do
  let h ← readHeader
  let pool ← readClassAttributes h.pool h.attributes
  let methods ← liftM (h.raws.mapM (decodeMethod pool))
  return ⟨h.major, h.minor, h.access, h.name, h.super, h.interfaces, h.fields, methods⟩

/-- **The class that a byte string holds.** -/
def parse (data : List UInt8) : Except ClassError Class := readClass.runOn data

end StackMap.ClassFile
