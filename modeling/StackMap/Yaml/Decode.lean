import StackMap.Numeral.Real
import StackMap.Yaml.Parse

/-!
# `Yaml.Decode`: values from nodes

A node is read as the value that is asked for. Nothing stands for no value: an entry without a value is
as good as none, and an item without one is left out of its list.

## Contents

* `Yaml.Node.text?`, `int?`, `bool?`: scalars.
* `Yaml.Node.items?`: lists.
* `Yaml.Node.fields?`: mappings, in which no key may come twice; `Yaml.Fields`: what is under a key.
-/

namespace StackMap.Yaml

/-- Whether a scalar stands for nothing. -/
def Scalar.isNull (s : Scalar) : Bool :=
  s.plain && ["", "~", "null", "Null", "NULL"].contains s.text

/-- The form of a number with a fraction or an exponent: digits and at most one point, then perhaps an
exponent. -/
def isRealText (s : List Char) : Bool :=
  let s := Numeral.dropSign s
  let whole := s.takeWhile Numeral.isDecimal
  let rest := s.dropWhile Numeral.isDecimal
  let (fraction, rest) := match rest with
    | '.' :: rest => (rest.takeWhile Numeral.isDecimal, rest.dropWhile Numeral.isDecimal)
    | _ => ([], rest)
  let exponentFits := match rest with
    | [] => true
    | e :: rest =>
      let digits := Numeral.dropSign rest
      (e = 'e' || e = 'E') && !digits.isEmpty && digits.all Numeral.isDecimal
  (!whole.isEmpty || !fraction.isEmpty) && exponentFits

/-- The whole part of a number in binary form, if it is in the range of 64 bits. -/
def wholePart? (bits : Nat) : Option Int :=
  let f := Numeral.double
  if f.isNotANumber bits || f.isInfinite bits then none
  else
    let (m, q) := f.decode bits
    let n : Nat := if 0 ≤ q then m * Nat.pow 2 q.toNat else m / Nat.pow 2 (-q).toNat
    if 0x8000000000000000 ≤ n then none
    else some (if f.isNegative bits then -(n : Int) else n)

/-- The whole number that a plain scalar stands for. Underscores do not count, and of a fraction only the
whole part does. -/
def wholeNumber? (s : List Char) : Option Int :=
  let digits := s.filter (· != '_')
  match s with
  | [] => none
  | c :: _ =>
    if !(Numeral.isDecimal c || c = '+' || c = '-' || c = '.') then none
    else match Numeral.readSigned 64 digits with
      | .ok n => if c = '.' then none else some n
      | .error _ =>
        if !isRealText digits then none
        else match Numeral.double.read digits with
          | .ok bits => wholePart? bits
          | .error _ => none

/-- The truth value that a scalar stands for. Only the first two words have to be plain. -/
def truth? (s : Scalar) : Option Bool :=
  if s.plain && ["true", "True", "TRUE"].contains s.text then some true
  else if s.plain && ["false", "False", "FALSE"].contains s.text then some false
  else if ["y", "Y", "yes", "Yes", "YES", "on", "On", "ON"].contains s.text then some true
  else if ["n", "N", "no", "No", "NO", "off", "Off", "OFF"].contains s.text then some false
  else none

namespace Node

/-- A scalar by a reading of it, or nothing. -/
def scalar? {α : Type} (read : Scalar → Option α) : Node → Except Error (Option α)
  | .scalar s =>
    if s.isNull then .ok none
    else match read s with
      | some a => .ok (some a)
      | none => .error .mistyped
  | _ => .error .mistyped

/-- **A text.** Any scalar is one. -/
def text? (n : Node) : Except Error (Option String) := n.scalar? fun s => some s.text

/-- **A whole number**, which has to be plain. -/
def int? (n : Node) : Except Error (Option Int) :=
  n.scalar? fun s => if s.plain then wholeNumber? s.text.toList else none

/-- **A truth value.** -/
def bool? (n : Node) : Except Error (Option Bool) := n.scalar? truth?

/-- **A list** of values that are read one by one. -/
def items? {α : Type} (read : Node → Except Error (Option α)) : Node → Except Error (Option (List α))
  | .list items => do
    let values ← items.mapM read
    return some (values.filterMap id)
  | .scalar s => if s.isNull then .ok none else .error .mistyped
  | .map _ => .error .mistyped

/-- The first key that comes twice. -/
def duplicate? : List String → Option String
  | [] => none
  | key :: more => if more.contains key then some key else duplicate? more

/-- **A mapping** by its keys, in which none may come twice. -/
def fields? : Node → Except Error (Option (List (String × Node)))
  | .map entries =>
    match duplicate? (entries.map (·.1.text)) with
    | some key => .error (.duplicate key)
    | none => .ok (some ((entries.filter (!·.1.isNull)).map fun (key, n) => (key.text, n)))
  | .scalar s => if s.isNull then .ok none else .error .mistyped
  | .list _ => .error .mistyped

end Node

/-- The entries of a mapping by their keys. -/
abbrev Fields := List (String × Node)

namespace Fields

/-- The node under a key, or nothing. -/
def node (fields : Fields) (key : String) : Node := (fields.lookup key).getD .null

/-- The text under a key, which is empty if there is none. -/
def text (fields : Fields) (key : String) : Except Error String :=
  return (← (fields.node key).text?).getD ""

/-- The texts under a key, if there are any. -/
def texts? (fields : Fields) (key : String) : Except Error (Option (List String)) :=
  (fields.node key).items? Node.text?

/-- The values under a key, read one by one. -/
def items {α : Type} (fields : Fields) (key : String) (read : Node → Except Error (Option α)) :
    Except Error (List α) :=
  return (← (fields.node key).items? read).getD []

end Fields

end StackMap.Yaml
