import StackMap.Text.Quoted

/-!
# `Numeral.Integer`: whole numbers in texts

A whole number is written in base ten, or in base two, eight or sixteen behind the marks `0b`, `0o`
and `0x`; a further leading zero also means base eight. Underscores may stand between digits. A
number has to fit a given number of bits, signed or unsigned.

## Contents

* `NumeralError`: why a text is no number of the wanted kind.
* `readUnsigned`, `readSigned`: numbers in any of these bases; `readDecimal?`: plain base ten.
* `toText`, `toHexText`: numbers written in base ten and, with a `0x` mark, in base sixteen.
-/

namespace StackMap.Numeral

/-- Why a text is not a number of the wanted kind. -/
inductive NumeralError where
  | malformed
  | outOfRange
  deriving Repr, DecidableEq

/-- The wording of a `NumeralError`. -/
def NumeralError.message : NumeralError → String
  | .malformed => "invalid syntax"
  | .outOfRange => "value out of range"

/-- The value of a letter or decimal digit as a digit of a large base. -/
def digitValue? (c : Char) : Option Nat :=
  let n := c.toNat
  if 48 ≤ n ∧ n ≤ 57 then some (n - 48)
  else if 97 ≤ n ∧ n ≤ 122 then some (n - 87)
  else if 65 ≤ n ∧ n ≤ 90 then some (n - 55)
  else none

/-- Whether a character is one of the ten decimal digits. -/
def isDecimal (c : Char) : Bool := 48 ≤ c.toNat && c.toNat ≤ 57

/-- The base that a mark behind a leading zero announces. -/
def markedBase? (c : Char) : Option Nat :=
  if c = 'b' ∨ c = 'B' then some 2
  else if c = 'o' ∨ c = 'O' then some 8
  else if c = 'x' ∨ c = 'X' then some 16
  else none

/-- The base of an unsigned numeral, and its digits. A mark counts only if something follows it. -/
def splitBase (s : List Char) : Nat × List Char :=
  match s with
  | '0' :: c :: d :: rest =>
    match markedBase? c with
    | some base => (base, d :: rest)
    | none => (8, c :: d :: rest)
  | '0' :: rest => (8, rest)
  | _ => (10, s)

/-- The number that digits spell behind the number `n`, at most `limit`. Underscores are passed over.
The digits are read in order, so a number that is too large is noticed before a bad digit behind it. -/
def accumulate (base limit : Nat) : (n : Nat) → List Char → Except NumeralError Nat
  | n, [] => .ok n
  | n, c :: s =>
    if c = '_' then accumulate base limit n s
    else match digitValue? c with
      | none => .error .malformed
      | some d =>
        if base ≤ d then .error .malformed
        else if limit < n * base + d then .error .outOfRange
        else accumulate base limit (n * base + d) s

/-- What stands before a position in a numeral. -/
inductive Before where
  | digit
  | underscore
  | other
  deriving DecidableEq

/-- Whether every underscore of a numeral stands between two digits. -/
def separates (hex : Bool) : Before → List Char → Bool
  | b, [] => b != .underscore
  | b, c :: s =>
    if isDecimal c || (hex && (Text.hexValue? c).isSome) then separates hex .digit s
    else if c = '_' then b == .digit && separates hex .underscore s
    else b != .underscore && separates hex .other s

/-- A numeral without its sign. -/
def dropSign : List Char → List Char
  | '+' :: s => s
  | '-' :: s => s
  | s => s

/-- **Underscores between digits.** The mark of a base counts as a digit here. -/
def underscoresFit (s : List Char) : Bool :=
  match dropSign s with
  | '0' :: c :: rest =>
    match markedBase? c with
    | some base => separates (base == 16) .digit rest
    | none => separates false .digit (c :: rest)
  | s => separates false .other s

/-- **Reading an unsigned number** of at most `bits` bits. -/
def readUnsigned (bits : Nat) (s : List Char) : Except NumeralError Nat :=
  if s.isEmpty then .error .malformed
  else do
    let (base, digits) := splitBase s
    let n ← accumulate base (Nat.pow 2 bits - 1) 0 digits
    if s.contains '_' && !underscoresFit s then .error .malformed else .ok n

/-- **Reading a signed number** in two's complement range of `bits` bits. -/
def readSigned (bits : Nat) (s : List Char) : Except NumeralError Int := do
  let n ← readUnsigned bits (match s with
    | '+' :: rest => rest
    | '-' :: rest => rest
    | _ => s)
  if s.head? = some '-' then
    if Nat.pow 2 (bits - 1) < n then .error .outOfRange else .ok (-(n : Int))
  else
    if Nat.pow 2 (bits - 1) ≤ n then .error .outOfRange else .ok n

/-- Reading a signed number in base ten, without marks and underscores, in the range of 64 bits. -/
def readDecimal? (s : List Char) : Option Int := do
  let digits := dropSign s
  if digits.isEmpty || !digits.all isDecimal then none
  let n : Nat := digits.foldl (fun n c => n * 10 + (c.toNat - 48)) 0
  if s.head? = some '-' then
    if 0x8000000000000000 < n then none else some (-(n : Int))
  else
    if 0x8000000000000000 ≤ n then none else some n

/-- A whole number in base ten. -/
def toText (n : Int) : String :=
  match n with
  | .ofNat n => String.ofList (Nat.toDigits 10 n)
  | .negSucc n => String.ofList ('-' :: Nat.toDigits 10 (n + 1))

/-- A whole number in base sixteen behind the mark `0x`. -/
def toHexText (n : Int) : String :=
  match n with
  | .ofNat n => "0x" ++ String.ofList (Nat.toDigits 16 n)
  | .negSucc n => "-0x" ++ String.ofList (Nat.toDigits 16 (n + 1))

end StackMap.Numeral
