import StackMap.Numeral.Integer

/-!
# `ClassFile.Error`: why bytes are no class file

## Contents

* `FormatError`: what is wrong.
* `FormatKind`, `FormatError.kind?`: the verdicts on a file.
* `Context`, `ClassError`: in which part of the file it is wrong.
-/

namespace StackMap

/-- **What is wrong with the bytes of a class file.** -/
inductive FormatError where
  | badMagic (magic : Nat)
  | truncated (need offset left : Nat)
  | unknownTag (tag index : Nat)
  | indexOutOfRange (index : Nat)
  | wrongTag (index tag : Nat) (want : List Nat)
  | bootstrapOutOfRange (index : Nat)
  | badOpcode (code : Nat)
  | badWideOpcode (code : Nat)
  | noDimensions
  | switchRange (low high : Int)
  | notBoundary (offset : Int)
  /-- A constant is computed from itself, so that resolving it has no end. This is no verdict on the
  bytes: a resolution without a bound would go on for ever. -/
  | endlessConstant
  deriving Repr, DecidableEq

/-- **The verdicts on a file** that is refused. -/
inductive FormatKind where
  | badMagic
  | truncated
  | badConstant
  | badOpcode
  | badOffset
  deriving Repr, DecidableEq

/-- The verdict that an error is, if it is one. -/
def FormatError.kind? : FormatError → Option FormatKind
  | .badMagic _ => some .badMagic
  | .truncated .. => some .truncated
  | .unknownTag .. | .indexOutOfRange _ | .wrongTag .. | .bootstrapOutOfRange _ => some .badConstant
  | .badOpcode _ | .badWideOpcode _ | .noDimensions => some .badOpcode
  | .switchRange .. | .notBoundary _ => some .badOffset
  | .endlessConstant => none

/-- Tags in brackets. -/
def FormatError.tagsText (tags : List Nat) : String :=
  "[" ++ " ".intercalate (tags.map fun (t : Nat) => Numeral.toText t) ++ "]"

/-- The wording of a `FormatError`. -/
def FormatError.message : FormatError → String
  | .badMagic magic => "not a class file: magic " ++ Numeral.toHexText magic
  | .truncated need offset left =>
    "truncated class file: need " ++ Numeral.toText need ++ " bytes at offset " ++
      Numeral.toText offset ++ ", have " ++ Numeral.toText left
  | .unknownTag tag index =>
    "bad constant pool reference: unknown tag " ++ Numeral.toText tag ++ " at index " ++
      Numeral.toText index
  | .indexOutOfRange index =>
    "bad constant pool reference: index " ++ Numeral.toText index ++ " out of range"
  | .wrongTag index tag want =>
    "bad constant pool reference: entry " ++ Numeral.toText index ++ " has tag " ++
      Numeral.toText tag ++ ", want one of " ++ tagsText want
  | .bootstrapOutOfRange index =>
    "bad constant pool reference: bootstrap method " ++ Numeral.toText index ++ " out of range"
  | .badOpcode code => "bad opcode: " ++ Numeral.toHexText code
  | .badWideOpcode code => "bad opcode: wide " ++ Numeral.toHexText code
  | .noDimensions => "bad opcode: multianewarray with 0 dimensions"
  | .switchRange low high =>
    "bad code offset: tableswitch range " ++ Numeral.toText low ++ ".." ++ Numeral.toText high
  | .notBoundary offset =>
    "bad code offset: " ++ Numeral.toText offset ++ " is not an instruction boundary"
  | .endlessConstant => "constant without end"

/-- A part of a class file. -/
inductive Context where
  | thisClass
  | superClass
  | interfaces
  | fieldName
  | field (name : String)
  | methodName
  | method (nameAndDesc : String)
  | attributeName
  | attribute (name : String)
  | instruction (offset : Nat)
  | exceptionTable
  deriving Repr, DecidableEq

/-- The wording of a `Context`. -/
def Context.message : Context → String
  | .thisClass => "this_class"
  | .superClass => "super_class"
  | .interfaces => "interfaces"
  | .fieldName => "field name"
  | .field name => "field " ++ name
  | .methodName => "method name"
  | .method nameAndDesc => "method " ++ nameAndDesc
  | .attributeName => "attribute name"
  | .attribute name => name ++ " attribute"
  | .instruction offset => "instruction at offset " ++ Numeral.toText offset
  | .exceptionTable => "exception table"

/-- An error in a class file, with the parts that it is in, the largest first. -/
structure ClassError where
  context : List Context
  cause : FormatError
  deriving Repr, DecidableEq

/-- The wording of a `ClassError`. -/
def ClassError.message (e : ClassError) : String :=
  ": ".intercalate (e.context.map Context.message ++ [e.cause.message])

/-- The same error inside a larger part. -/
def ClassError.inside (part : Context) (e : ClassError) : ClassError :=
  { e with context := part :: e.context }

end StackMap
