import StackMap.Assembly.Error
import StackMap.Code.Constant
import StackMap.Desc.Parse
import StackMap.Numeral.Real
import StackMap.Text.LowerCase

/-!
# `Assembly.Operand`: operands in assembly

## Contents

* `integer`, `localVariable`, `arrayTag`, `dimensionCount`: numbers of the various kinds.
* `number`: a numeric constant, whose last letter or whose form gives its type.
* `constant`: the operand of `ldc`.
-/

namespace StackMap.Assembly

/-- A word of a line as a string. -/
abbrev str (s : List Char) : String := String.ofList s

/-- A signed number of the given number of bits. -/
def integer (bits : Nat) (s : List Char) : Except OperandFlaw Int :=
  (Numeral.readSigned bits s).mapError (.integer (str s))

/-- The number of a local variable. -/
def localVariable (s : List Char) : Except OperandFlaw Nat :=
  (Numeral.readUnsigned 16 s).mapError fun _ => .localVariable (str s)

/-- The tags of the primitive types, by name. -/
def arrayTags : List (String × Int) :=
  [("boolean", 4), ("char", 5), ("float", 6), ("double", 7), ("byte", 8), ("short", 9), ("int", 10),
    ("long", 11)]

/-- A text without the letters `t_` at its start. -/
def dropTagMark : List Char → List Char
  | 't' :: '_' :: s => s
  | s => s

/-- The tag of a primitive type: its name in any case, with or without `t_`, or a number. -/
def arrayTag (s : List Char) : Except OperandFlaw Int :=
  match arrayTags.lookup (str (dropTagMark (Text.lower s))) with
  | some tag => .ok tag
  | none =>
    match Numeral.readDecimal? s with
    | some tag => .ok tag
    | none => .error (.arrayType (str s))

/-- The number of dimensions of an array that is made at once. -/
def dimensionCount (s : List Char) : Except OperandFlaw Int :=
  match Numeral.readDecimal? s with
  | some n => if 1 ≤ n ∧ n ≤ 255 then .ok n else .error (.dimensions (str s))
  | none => .error (.dimensions (str s))

/-- Whether a text ends with a character. -/
def endsWith (c : Char) (s : List Char) : Bool := s.getLast? == some c

/-- **A numeric constant.** An `l` at the end makes it a `long`, an `f` a `float`; a `d` at the end, a
point, an exponent or the word `nan` makes it a `double`; any other is an `int`. In base sixteen `d`,
`e` and `f` are digits. -/
def number (s : List Char) : Except OperandFlaw Constant :=
  let lower := Text.lower s
  let isHex := ['0', 'x'].isPrefixOf (lower.dropWhile fun c => c == '+' || c == '-')
  if endsWith 'l' lower then do
    return .long (Int64.ofInt (← integer 64 s.dropLast))
  else if !isHex && endsWith 'f' lower then
    match Numeral.single.read s.dropLast with
    | .ok bits => .ok (.float bits.toUInt32)
    | .error e => .error (.real (str s.dropLast) e)
  else if !isHex && (endsWith 'd' lower || lower.any (fun c => c == '.' || c == 'e') ||
      lower == ['n', 'a', 'n']) then
    let text := if endsWith 'd' lower then lower.dropLast else lower
    match Numeral.double.read text with
    | .ok bits => .ok (.double bits.toUInt64)
    | .error e => .error (.real (str text) e)
  else do
    return .int (Int32.ofInt (← integer 32 s))

/-- The type of a class literal: a descriptor, or the name of a class. -/
def classType (s : List Char) : Except OperandFlaw Ty :=
  if Text.size s = 1 || s.head? = some '[' || (s.head? = some 'L' && endsWith ';' s) then
    (Desc.parse (str s)).mapError .classDescriptor
  else .ok (Ty.ofClassName (str s))

/-- The type of a method type constant. -/
def methodType (s : List Char) : Except OperandFlaw Ty :=
  (Desc.parseMethod (str s)).mapError fun _ => .methodDescriptor (str s)

/-- A constant that is not a string, by its words. -/
def wordConstant (s : List Char) : List (List Char) → Except OperandFlaw Constant
  | [] => .error .missingConstant
  | word :: operands =>
    if str word = "class" then
      match operands with
      | [t] => do return .type (← classType t)
      | _ => .error .classOperands
    else if str word = "methodtype" then
      match operands with
      | [t] => do return .type (← methodType t)
      | _ => .error .methodTypeOperands
    else if str word = "handle" then
      let handle (kind owner name desc : List Char) (itf : Bool) : Except OperandFlaw Constant :=
        match Handle.kindOfName? (str kind) with
        | some k => .ok (.handle ⟨k, str owner, str name, str desc, itf⟩)
        | none => .error (.handleKind (str kind))
      match operands with
      | [kind, owner, name, desc] => handle kind owner name desc false
      | [kind, owner, name, desc, mark] => handle kind owner name desc (str mark == "itf")
      | _ => .error .handleOperands
    else if str word = "dynamic" then
      match operands with
      | [name, desc] => .ok (.dynamic (str name) (str desc) none [])
      | _ => .error .dynamicOperands
    else if operands.isEmpty then number s
    else .error (.constant (str s))

/-- **The operand of `ldc`**: a string in quotes, a class, method type, handle or dynamic constant
behind that word, or a number. -/
def constant (s : List Char) : Except OperandFlaw Constant :=
  if s.head? = some '"' then
    match Text.unquote? s with
    | some bytes => .ok (.string bytes)
    | none => .error (.stringLiteral (str s))
  else wordConstant s (Text.words s)

end StackMap.Assembly
