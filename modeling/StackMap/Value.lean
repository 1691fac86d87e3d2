import StackMap.Desc.Basic

/-!
# `Value`: abstract values

A local variable or stack entry is described by the category of the values that it can hold: one of the
four primitive categories, a return address, a reference of known type, or nothing known at all.
Values form a flat lattice: two that differ join to `uninit`.

## Contents

* `Value`, `Slot`: values, and entries that may hold none.
* `Value.size`, `Value.descriptor`, `Value.text`, `Value.hash`: the observations.
* `Slot.merge`: the join.
-/

namespace StackMap

/-- **Values.** `uninit` says that nothing is known: the variable was not set, or paths disagree. -/
inductive Value where
  | uninit
  | int
  | float
  | long
  | double
  | returnAddress
  | object (descriptor : String)
  | array (descriptor : String)
  deriving Repr, DecidableEq

namespace Value

/-- **The value of a class name**, which for an array is its descriptor. -/
def ofClassName (name : String) : Value :=
  match Ty.ofClassName name with
  | .array d => .array d
  | t => .object t.descriptor

/-- The type that a value carries, the absent one if nothing is known. -/
def type : Value → Ty
  | uninit => .absent
  | int => .int
  | float => .float
  | long => .long
  | double => .double
  | returnAddress => .void
  | object d => .object d
  | array d => .array d

/-- Whether a value carries a type. -/
def hasType (v : Value) : Bool := v.type != .absent

/-- The number of local variables that a value takes. -/
def size : Value → Nat
  | long | double => 2
  | _ => 1

/-- Whether a value is a reference. -/
def isReference : Value → Bool
  | object _ | array _ => true
  | _ => false

/-- The descriptor of a value. -/
def descriptor : Value → String
  | uninit => "."
  | returnAddress => "A"
  | v => v.type.descriptor

/-- The short text of a value: class types are all shown alike. -/
def text : Value → String
  | object _ => "R"
  | v => v.descriptor

/-- The 64-bit FNV-1a hash of a byte string. -/
def fnv1a (bytes : List UInt8) : UInt64 :=
  bytes.foldl (fun h b => (h ^^^ b.toUInt64) * 0x100000001b3) 0xcbf29ce484222325

/-- The hash of a value: that of its descriptor, with fixed numbers for the two values that have none
of their own. -/
def hash : Value → UInt64
  | uninit => 0
  | returnAddress => 0xA
  | v => fnv1a (Text.encode v.descriptor.toList)

end Value

/-- **A slot** holds a value, or none if an operation produced none. -/
abbrev Slot := Option Value

namespace Slot

/-- The descriptor of the value in a slot. -/
def descriptor : Slot → String
  | none => "<none>"
  | some v => v.descriptor

/-- The short text of the value in a slot. -/
def text : Slot → String
  | none => "<none>"
  | some v => v.text

/-- **The join of two slots**: equal ones join to themselves, any others to `uninit`. -/
def merge (a b : Slot) : Slot := if a = b then a else some .uninit

end Slot

end StackMap
