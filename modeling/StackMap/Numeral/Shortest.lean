import StackMap.Numeral.Binary

/-!
# `Numeral.Shortest`: floating-point numbers as short decimals

A finite number is written with the fewest decimal digits that still read back as that number, and
with the nearest of those. Between `10^-4` and `10^6` the digits stand around a decimal point; outside
they come with an exponent of at least two digits.

## Contents

* `Decimal`: digits and the position of the point.
* `shortest`: the fewest digits that read back.
* `Format.toText`: the text of any bit pattern.
-/

namespace StackMap.Numeral

/-- The number `0.d₁d₂…dₙ · 10^point`. -/
structure Decimal where
  digits : List Char
  point : Int
  deriving Repr

/-- A fraction times a power of ten, as a fraction. -/
def scaleDecimal (num den : Nat) (e : Int) : Nat × Nat :=
  match e with
  | .ofNat e => (num * Nat.pow 10 e, den)
  | .negSucc e => (num, den * Nat.pow 10 (e + 1))

/-- The exponent `p` with `10^(p-1) ≤ num / den < 10^p`, for a positive fraction. -/
def decimalPoint (num den : Nat) : Int :=
  let p : Int := ((Nat.toDigits 10 num).length : Int) - (Nat.toDigits 10 den).length
  let (scaledNum, scaledDen) := scaleDecimal num den (-p)
  if scaledDen ≤ scaledNum then p + 1 else p

/-- The positive numbers that round to one floating-point number: from `low / den` to `high / den`,
the ends included iff `closed`, around that number `value / den` itself. -/
structure Interval where
  low : Nat
  value : Nat
  high : Nat
  den : Nat
  closed : Bool

/-- The interval of the numbers that round to `m · 2^q`. Below a power of two the next number is only
half as far away. -/
def Format.interval (f : Format) (m : Nat) (q : Int) : Interval :=
  let below := if m = Nat.pow 2 f.fraction ∧ f.leastExponent < q then 4 * m - 1 else 4 * m - 2
  let (unit, den) := Format.scaleBinary 1 1 (q - 2)
  ⟨below * unit, 4 * m * unit, (4 * m + 2) * unit, den, m % 2 = 0⟩

/-- Whether the fraction `num / den` lies in the interval. -/
def Interval.contains (i : Interval) (num den : Nat) : Bool :=
  if i.closed then i.low * den ≤ num * i.den && num * i.den ≤ i.high * den
  else i.low * den < num * i.den && num * i.den < i.high * den

/-- The multiple of `10^e` in the interval that is nearest to its value, as the whole number of that
unit. A tie goes to the even one. -/
def Interval.nearest? (i : Interval) (e : Int) : Option Nat :=
  let (num, den) := scaleDecimal i.value i.den (-e)
  let k := num / den
  let inside (k : Nat) : Bool := let (n, d) := scaleDecimal k 1 e; i.contains n d
  match inside k, inside (k + 1) with
  | true, true => some (Format.divideToEven num den)
  | true, false => some k
  | false, true => some (k + 1)
  | false, false => none

/-- A number without the zeros at the end of its digits. -/
def dropEndZeros (digits : List Char) : List Char :=
  (digits.reverse.dropWhile (· == '0')).reverse

/-- **The shortest decimal** of a number with the given interval: the grids of 1, 2, … digits are
tried in turn, and the first that has a point in the interval gives the digits. Within `fuel` grids
one is found: seventeen digits tell all numbers of 64 bits apart. -/
def shortestFrom (i : Interval) (point : Int) : (fuel count : Nat) → Decimal
  | 0, _ => ⟨[], point⟩
  | fuel + 1, count =>
    match i.nearest? (point - count) with
    | some k =>
      let digits := Nat.toDigits 10 k
      ⟨dropEndZeros digits, point - count + digits.length⟩
    | none => shortestFrom i point fuel (count + 1)

/-- The shortest decimal of the positive number `m · 2^q`. -/
def Format.shortest (f : Format) (m : Nat) (q : Int) : Decimal :=
  let i := f.interval m q
  shortestFrom i (decimalPoint i.value i.den) 20 1

/-- The text of an exponent: a sign and at least two digits. -/
def exponentText (e : Int) : List Char :=
  let digits := Nat.toDigits 10 e.natAbs
  (if e < 0 then '-' else '+') :: (if digits.length < 2 then '0' :: digits else digits)

/-- **A decimal as text**, with an exponent iff the first digit stands for less than `10^-4` or for
`10^6` or more. -/
def Decimal.toText (d : Decimal) : List Char :=
  let e := d.point - 1
  if e < -4 ∨ 6 ≤ e then
    let tail := d.digits.drop 1
    d.digits.take 1 ++ (if tail.isEmpty then [] else '.' :: tail) ++ 'e' :: exponentText e
  else if d.point ≤ 0 then
    if d.digits.isEmpty then ['0']
    else '0' :: '.' :: List.replicate d.point.natAbs '0' ++ d.digits
  else
    let whole := d.point.toNat
    let tail := d.digits.drop whole
    d.digits.take whole ++ List.replicate (whole - d.digits.length) '0' ++
      (if tail.isEmpty then [] else '.' :: tail)

/-- **The text of a bit pattern.** -/
def Format.toText (f : Format) (bits : Nat) : String :=
  if f.isNotANumber bits then "NaN"
  else if f.isInfinite bits then if f.isNegative bits then "-Inf" else "+Inf"
  else
    let (m, q) := f.decode bits
    let text := if m = 0 then ['0'] else (f.shortest m q).toText
    String.ofList (if f.isNegative bits then '-' :: text else text)

end StackMap.Numeral
