import StackMap.Text.Blank
import StackMap.Text.Quoted
import StackMap.Numeral.Integer

/-!
# `Desc.Basic`: types and their descriptors

A type is known by its descriptor: one letter for the primitive types and `void`, `Lname;` for a class,
a `[` in front of its component for an array, and `(parameters)result` for a method. `Ty` keeps the
descriptor of the last three as it was given. Descriptors from class names are not checked when they
are formed, so the projections below answer for any text; what they do on a text that is no descriptor
is part of their definition.

## Contents

* `TypeSort`, `Ty`: the sorts of types, and types.
* `Flaw`, `DescriptorError`, `TypeFault`: what is wrong with a descriptor, and misuse of a projection.
* `skipField`, `fieldTexts`: the field descriptors at the start of a text.
* `Ty.ofField`, `Ty.ofClassName`: the types of a field descriptor and of a class name.
* `Ty.internalName`, `Ty.dimensions`, `Ty.component`, `Ty.element`, `Ty.result`, `Ty.arguments`,
  `Ty.size`, `Ty.sourceName`: the projections.
-/

namespace StackMap

/-- The sorts of types. `absent` is the sort of the type that stands for no type. -/
inductive TypeSort where
  | absent | void | boolean | char | byte | short | int | float | long | double
  | array | object | method
  deriving Repr, DecidableEq

namespace TypeSort

/-- All sorts in the order of their codes. -/
def all : List TypeSort :=
  [.absent, .void, .boolean, .char, .byte, .short, .int, .float, .long, .double,
    .array, .object, .method]

/-- The name of a sort. -/
def name : TypeSort → String
  | .absent => "none"
  | .void => "void"
  | .boolean => "boolean"
  | .char => "char"
  | .byte => "byte"
  | .short => "short"
  | .int => "int"
  | .float => "float"
  | .long => "long"
  | .double => "double"
  | .array => "array"
  | .object => "object"
  | .method => "method"

/-- The name for a code, also for codes of no sort. -/
def nameOfCode (code : Nat) : String :=
  match all[code]? with
  | some sort => sort.name
  | none => "Sort(" ++ Numeral.toText code ++ ")"

end TypeSort

/-- **Types.** Arrays, classes and methods carry their descriptors. -/
inductive Ty where
  | absent
  | void
  | boolean
  | char
  | byte
  | short
  | int
  | float
  | long
  | double
  | array (descriptor : String)
  | object (descriptor : String)
  | method (descriptor : String)
  deriving Repr, DecidableEq

/-- What is wrong with a text that is no descriptor. -/
inductive Flaw where
  | missingParenthesis
  | trailingCharacters
  | tooManyDimensions
  | unexpectedEnd
  | badClassName
  | unexpected (byte : UInt8) (offset : Nat)
  deriving Repr, DecidableEq

/-- The wording of a flaw. -/
def Flaw.message : Flaw → String
  | .missingParenthesis => "missing ')'"
  | .trailingCharacters => "trailing characters"
  | .tooManyDimensions => "too many array dimensions"
  | .unexpectedEnd => "unexpected end"
  | .badClassName => "bad class name"
  | .unexpected byte offset =>
    "unexpected " ++ Text.quoteByte byte ++ " at " ++ Numeral.toText offset

/-- Why a text is refused as a descriptor. -/
inductive DescriptorError where
  | empty
  | flawed (text : String) (flaw : Flaw)
  | notMethod (text : String)
  deriving Repr, DecidableEq

/-- The wording of a `DescriptorError`. -/
def DescriptorError.message : DescriptorError → String
  | .empty => "malformed descriptor: empty"
  | .flawed text flaw => "malformed descriptor: " ++ Text.quote text ++ ": " ++ flaw.message
  | .notMethod text => "malformed descriptor: " ++ Text.quote text ++ " is not a method descriptor"

/-- Misuse of a projection: it is asked of a type of another sort, or of a text that is no
descriptor. -/
inductive TypeFault where
  | noInternalName (sort : TypeSort) (descriptor : String)
  | noComponent (descriptor : String)
  | noElement (descriptor : String)
  | noResult (descriptor : String)
  | noArguments (descriptor : String)
  | malformed (error : DescriptorError)
  | endOfText
  deriving Repr, DecidableEq

/-- The wording of a `TypeFault`; reaching the end of the text has none. -/
def TypeFault.message? : TypeFault → Option String
  | .noInternalName sort d => some ("InternalName of " ++ sort.name ++ " type " ++ d)
  | .noComponent d => some ("ComponentType of non-array type " ++ d)
  | .noElement d => some ("ElementType of non-array type " ++ d)
  | .noResult d => some ("ReturnType of non-method type " ++ d)
  | .noArguments d => some ("ArgumentTypes of non-method type " ++ d)
  | .malformed e => some e.message
  | .endOfText => none

namespace Desc

/-- The types with a descriptor of one letter, `void` among them. -/
def ofLetter? : Char → Option Ty
  | 'V' => some .void
  | 'Z' => some .boolean
  | 'C' => some .char
  | 'B' => some .byte
  | 'S' => some .short
  | 'I' => some .int
  | 'F' => some .float
  | 'J' => some .long
  | 'D' => some .double
  | _ => none

/-- The type that the first character of a field descriptor determines. A text that starts like no
descriptor gives the absent type. -/
def fieldType : List Char → Ty
  | '[' :: rest => .array (String.ofList ('[' :: rest))
  | 'L' :: rest => .object (String.ofList ('L' :: rest))
  | c :: _ => (ofLetter? c).getD .absent
  | [] => .absent

/-- Whether a letter is the descriptor of a primitive type. -/
def isPrimitive (c : Char) : Bool := c != 'V' && (ofLetter? c).isSome

/-- The number of `[` at the start of a text. -/
def countDimensions (s : List Char) : Nat := (s.takeWhile (· == '[')).length

/-- **The text behind a field descriptor.** `offset` is the position of the text, in bytes, and serves
the wording of a flaw. -/
def skipField (offset : Nat) (s : List Char) : Except Flaw (List Char) :=
  let dimensions := countDimensions s
  if 255 < dimensions then .error .tooManyDimensions
  else match s.dropWhile (· == '[') with
    | [] => .error .unexpectedEnd
    | c :: rest =>
      if isPrimitive c then .ok rest
      else if c = 'L' then
        match Text.cutAt (· == ';') rest with
        | some (_ :: _, rest) => .ok rest
        | _ => .error .badClassName
      else .error (.unexpected (Text.firstByte c) (offset + dimensions))

theorem length_cutAt {p : Char → Bool} {s l r : List Char} (h : Text.cutAt p s = some (l, r)) :
    r.length < s.length := by
  induction s generalizing l with
  | nil => simp [Text.cutAt] at h
  | cons a s ih =>
    simp only [Text.cutAt] at h
    split at h
    · simp_all
    · simp only [Option.map_eq_some_iff, Prod.mk.injEq] at h
      obtain ⟨cut, h, _, rfl⟩ := h
      have := ih h
      simp only [List.length_cons]
      omega

/-- A field descriptor is not empty. -/
theorem length_skipField {offset : Nat} {s rest : List Char} (h : skipField offset s = .ok rest) :
    rest.length < s.length := by
  have hs : (s.dropWhile (· == '[')).length ≤ s.length := List.dropWhile_sublist _ |>.length_le
  unfold skipField at h
  simp only at h
  split at h
  · simp at h
  · split at h
    · simp at h
    · rename_i c tail heq
      rw [heq, List.length_cons] at hs
      split at h
      · simp only [Except.ok.injEq] at h; subst h; omega
      · split at h
        · split at h
          · rename_i hcut
            simp only [Except.ok.injEq] at h
            subst h
            have := length_cutAt hcut
            omega
          · simp at h
        · simp at h

/-- **The field descriptors up to a `)`**, and the text behind it. -/
def fieldTexts (offset : Nat) (s : List Char) : Except Flaw (List (List Char) × List Char) :=
  match s with
  | [] => .error .missingParenthesis
  | ')' :: rest => .ok ([], rest)
  | s =>
    match _h : skipField offset s with
    | .error flaw => .error flaw
    | .ok rest =>
      let field := s.take (s.length - rest.length)
      match fieldTexts (offset + Text.size field) rest with
      | .error flaw => .error flaw
      | .ok (fields, rest) => .ok (field :: fields, rest)
termination_by s.length
decreasing_by exact length_skipField _h

end Desc

namespace Ty

/-- The sort of a type. -/
def sort : Ty → TypeSort
  | absent => .absent
  | void => .void
  | boolean => .boolean
  | char => .char
  | byte => .byte
  | short => .short
  | int => .int
  | float => .float
  | long => .long
  | double => .double
  | array _ => .array
  | object _ => .object
  | method _ => .method

/-- The descriptor of a type; that of the absent type is empty. -/
def descriptor : Ty → String
  | absent => ""
  | void => "V"
  | boolean => "Z"
  | char => "C"
  | byte => "B"
  | short => "S"
  | int => "I"
  | float => "F"
  | long => "J"
  | double => "D"
  | array d | object d | method d => d

/-- **The type of a class name.** The name of an array class is its descriptor, so a name that starts
with `[` gives an array type. -/
def ofClassName (name : String) : Ty :=
  if name.toList.head? = some '[' then .array name else .object ("L" ++ name ++ ";")

/-- **The type of a field descriptor**, by its first character alone. An empty text has none. -/
def ofField (s : List Char) : Except TypeFault Ty :=
  if s.isEmpty then .error .endOfText else .ok (Desc.fieldType s)

/-- **The internal name** of a class or array. The name of a class is its descriptor without the first
and the last byte. -/
def internalName : Ty → Except TypeFault String
  | .object d =>
    match d.toList.drop 1 with
    | [] => .error .endOfText
    | name => .ok (String.ofList (Text.decodeLossy (Text.encode name).dropLast))
  | .array d => .ok d
  | t => .error (.noInternalName t.sort t.descriptor)

/-- The number of array dimensions. -/
def dimensions (t : Ty) : Nat := Desc.countDimensions t.descriptor.toList

/-- **The component type** of an array: its descriptor without the first `[`. -/
def component : Ty → Except TypeFault Ty
  | .array d => ofField (d.toList.drop 1)
  | t => .error (.noComponent t.descriptor)

/-- **The element type** of an array: its descriptor without all leading `[`. -/
def element : Ty → Except TypeFault Ty
  | .array d => ofField (d.toList.dropWhile (· == '['))
  | t => .error (.noElement t.descriptor)

/-- The text behind the last element that satisfies `p`, all of it if none does. -/
def afterLast (p : Char → Bool) (s : List Char) : List Char :=
  (s.reverse.takeWhile (!p ·)).reverse

/-- **The result type** of a method: the type of the text behind the last `)`. -/
def result : Ty → Except TypeFault Ty
  | .method d => ofField (afterLast (· == ')') d.toList)
  | t => .error (.noResult t.descriptor)

/-- **The parameter types** of a method: those of the field descriptors behind its first byte, up to
the first `)` that is not part of one. -/
def arguments : Ty → Except TypeFault (List Ty)
  | .method d =>
    match d.toList with
    | [] => .error .endOfText
    | c :: rest =>
      match String.utf8EncodeChar c with
      | _ :: second :: _ => .error (.malformed (.flawed d (.unexpected second 1)))
      | _ =>
        match Desc.fieldTexts 1 rest with
        | .error .missingParenthesis => .error .endOfText
        | .error flaw => .error (.malformed (.flawed d flaw))
        | .ok (fields, _) => fields.mapM ofField
  | t => .error (.noArguments t.descriptor)

/-- The number of local variables that a value of the type takes. -/
def slots : Ty → Nat
  | absent | void => 0
  | long | double => 2
  | _ => 1

/-- The number of local variables that values of several types take together. -/
def totalSlots : List Ty → Nat
  | [] => 0
  | t :: more => t.slots + totalSlots more

/-- **The size of a type**: its slots, or for a method those of its parameters together. -/
def size : Ty → Except TypeFault Nat
  | .method d => do
    let arguments ← (Ty.method d).arguments
    return totalSlots arguments
  | t => .ok t.slots

/-- The name of a type that is no array: that of a class has points for slashes. -/
def plainName : Ty → Except TypeFault String
  | .absent => .ok "<none>"
  | .object d => do
    let name ← (Ty.object d).internalName
    return String.ofList (name.toList.map fun c => if c = '/' then '.' else c)
  | .method d => .ok d
  | t => .ok t.sort.name

/-- **The name of a type in source code**: an array has a `[]` per dimension behind its element. -/
def sourceName : Ty → Except TypeFault String
  | .array d => do
    let base ← (← (Ty.array d).element).plainName
    return base ++ String.join (List.replicate (Ty.array d).dimensions "[]")
  | t => t.plainName

end Ty

end StackMap
