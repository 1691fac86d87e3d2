import StackMap.Numeral.Binary
import StackMap.Numeral.Integer

/-!
# `Numeral.Real`: floating-point numbers in texts

A real number is written in base ten, with an optional sign, decimal point and exponent, or as one of
the words `inf`, `infinity` and `nan` in any case. Underscores may stand between digits. The number is
rounded once, to the nearest number of the wanted format.

## Contents

* `Numeral.scan?`: sign, digits, point and exponent of a text.
* `Format.read`: the bit pattern that a text stands for.
-/

namespace StackMap.Numeral

/-- The digits of a numeral: their value, how many stand behind the point, and whether there is any. -/
structure Mantissa where
  value : Nat
  places : Nat
  pointSeen : Bool
  digitSeen : Bool

/-- Reads digits, underscores and at most one point. -/
def Mantissa.scan : Mantissa → List Char → Mantissa × List Char
  | m, [] => (m, [])
  | m, c :: s =>
    if c = '_' then m.scan s
    else if c = '.' then
      if m.pointSeen then (m, c :: s) else { m with pointSeen := true }.scan s
    else if isDecimal c then
      Mantissa.scan
        { m with
          value := m.value * 10 + (c.toNat - 48)
          places := if m.pointSeen then m.places + 1 else m.places
          digitSeen := true } s
    else (m, c :: s)

/-- Reads the digits of an exponent, with underscores among them. An exponent of 10000 or more takes
up no further digits: it decides the result by itself. -/
def scanExponent : (e : Nat) → List Char → Nat × List Char
  | e, [] => (e, [])
  | e, c :: s =>
    if c = '_' then scanExponent e s
    else if isDecimal c then scanExponent (if e < 10000 then e * 10 + (c.toNat - 48) else e) s
    else (e, c :: s)

/-- The exponent of a numeral and the text behind it; `0` without an `e`. -/
def exponent? : List Char → Option (Int × List Char)
  | c :: s =>
    if c = 'e' ∨ c = 'E' then
      let digits := dropSign s
      if (digits.head?.map isDecimal).getD false then
        let (e, rest) := scanExponent 0 digits
        some (if s.head? = some '-' then -(e : Int) else e, rest)
      else none
    else some (0, c :: s)
  | [] => some (0, [])

/-- The number `value · 10^exponent` that a numeral without sign stands for. All of the text has to
belong to it. -/
def scan? (s : List Char) : Option (Nat × Int) := do
  let (m, rest) := Mantissa.scan ⟨0, 0, false, false⟩ s
  if !m.digitSeen then none
  let (e, rest) ← exponent? rest
  if !rest.isEmpty then none
  if s.contains '_' && !underscoresFit s then none
  return (m.value, e - m.places)

/-- Whether a text spells an ASCII word in lower case, its own letters being in any case. -/
def spells (word : String) (s : List Char) : Bool := s.map Char.toLower == word.toList

/-- **Reading a number of a format.** A number past the largest finite one is out of range, and one
below the least positive one becomes zero. -/
def Format.read (f : Format) (s : List Char) : Except NumeralError Nat :=
  let sign := if s.head? = some '-' then f.signBit else 0
  let body := dropSign s
  if spells "inf" body || spells "infinity" body then .ok (sign + f.infinity)
  else if spells "nan" s then .ok f.notANumber
  else match scan? body with
    | none => .error .malformed
    | some (value, e) =>
      let rounded := match e with
        | .ofNat e => f.round (value * Nat.pow 10 e) 1
        | .negSucc e => f.round value (Nat.pow 10 (e + 1))
      match rounded with
      | some bits => .ok (sign + bits)
      | none => .error .outOfRange

end StackMap.Numeral
