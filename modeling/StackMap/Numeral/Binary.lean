/-!
# `Numeral.Binary`: binary floating-point formats

A binary format stores a number as sign, exponent field and fraction field. All numbers of a format
are `m · 2^q` with a whole `m` below `2^(fraction + 1)` and `q` not below a least exponent, so the
module computes with whole numbers only.

## Contents

* `Format`, `single`, `double`: the two formats in use, by the widths of their fields.
* `Format.decode`: the `m` and `q` of a bit pattern.
* `Format.round`: the bit pattern nearest to a positive fraction, a tie going to the even one.
-/

namespace StackMap.Numeral

/-- A binary floating-point format, given by the widths of its two fields. -/
structure Format where
  exponent : Nat
  fraction : Nat

/-- Numbers of 32 bits. -/
def single : Format := ⟨8, 23⟩

/-- Numbers of 64 bits. -/
def double : Format := ⟨11, 52⟩

namespace Format

/-- The largest value of the exponent field, which marks infinities and what is not a number. -/
def topExponent (f : Format) : Nat := Nat.pow 2 f.exponent - 1

/-- The least exponent: every number of the format is a multiple of `2^leastExponent`. -/
def leastExponent (f : Format) : Int := 2 - Nat.pow 2 (f.exponent - 1) - f.fraction

/-- The bit that holds the sign. -/
def signBit (f : Format) : Nat := Nat.pow 2 (f.exponent + f.fraction)

/-- The bit pattern of positive infinity. -/
def infinity (f : Format) : Nat := f.topExponent * Nat.pow 2 f.fraction

/-- A bit pattern that is not a number: positive, with only the first fraction bit set. -/
def notANumber (f : Format) : Nat := f.infinity + Nat.pow 2 (f.fraction - 1)

/-- The exponent field of a bit pattern. -/
def exponentField (f : Format) (bits : Nat) : Nat := bits / Nat.pow 2 f.fraction % Nat.pow 2 f.exponent

/-- The fraction field of a bit pattern. -/
def fractionField (f : Format) (bits : Nat) : Nat := bits % Nat.pow 2 f.fraction

/-- Whether a bit pattern is not a number. -/
def isNotANumber (f : Format) (bits : Nat) : Bool :=
  f.exponentField bits == f.topExponent && f.fractionField bits != 0

/-- Whether a bit pattern is an infinity. -/
def isInfinite (f : Format) (bits : Nat) : Bool :=
  f.exponentField bits == f.topExponent && f.fractionField bits == 0

/-- Whether the sign bit of a bit pattern is set. -/
def isNegative (f : Format) (bits : Nat) : Bool := bits / f.signBit % 2 == 1

/-- **Decoding**: a finite number without its sign is `m · 2^q`. -/
def decode (f : Format) (bits : Nat) : Nat × Int :=
  let e := f.exponentField bits
  if e = 0 then (f.fractionField bits, f.leastExponent)
  else (f.fractionField bits + Nat.pow 2 f.fraction, f.leastExponent + (e - 1 : Nat))

/-- A quotient rounded to the nearest whole number, a tie going to the even one. -/
def divideToEven (num den : Nat) : Nat :=
  let q := num / den
  let r := num % den
  if 2 * r < den then q
  else if den < 2 * r then q + 1
  else q + q % 2

/-- A fraction times a power of two, as a fraction. -/
def scaleBinary (num den : Nat) (e : Int) : Nat × Nat :=
  match e with
  | .ofNat e => (num * Nat.pow 2 e, den)
  | .negSucc e => (num, den * Nat.pow 2 (e + 1))

/-- The exponent `e` with `2^e ≤ num / den < 2^(e+1)`, for a positive fraction. -/
def binaryExponent (num den : Nat) : Int :=
  let e : Int := (num.log2 : Int) - den.log2
  let (scaledNum, scaledDen) := scaleBinary num den (-e)
  if scaledNum < scaledDen then e - 1 else e

/-- **Rounding**: the bit pattern nearest to the fraction `num / den`, or `none` if that is past the
largest finite number. A carry out of the fraction field raises the exponent field by one. -/
def round (f : Format) (num den : Nat) : Option Nat :=
  if num = 0 then some 0
  else
    let q := max (binaryExponent num den - f.fraction) f.leastExponent
    let (scaledNum, scaledDen) := scaleBinary num den (-q)
    let bits := (q - f.leastExponent).toNat * Nat.pow 2 f.fraction + divideToEven scaledNum scaledDen
    if bits < f.infinity then some bits else none

end Format

end StackMap.Numeral
