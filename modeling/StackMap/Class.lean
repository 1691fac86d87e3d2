import StackMap.Code.Method

/-!
# `Class`: classes

## Contents

* `Field`, `Class`: a class with its fields and methods.
* `Class.findMethod?`: a method by name and descriptor.
-/

namespace StackMap

/-- A field of a class. -/
structure Field where
  access : Nat
  name : String
  desc : String
  deriving Repr, DecidableEq

/-- **Classes.** A class without a super class has an empty name there. -/
structure Class where
  major : Nat
  minor : Nat
  access : Nat
  name : String
  super : String
  interfaces : List String
  fields : List Field
  methods : List Method
  deriving Repr

/-- The class that all others extend. -/
def Class.rootName : String := "java/lang/Object"

/-- The position of the first method with a name and a descriptor. -/
def Class.findMethod? (c : Class) (name desc : String) : Option Nat :=
  c.methods.findIdx? fun m => m.name == name && m.desc == desc

end StackMap
