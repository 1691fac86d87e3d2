import StackMap.Text.Printable
import StackMap.Text.Utf8

/-!
# `Text.Quoted`: quoted texts

Messages and string constants show texts in quotes. A printable character stands for itself, a quote
and a backslash get a backslash in front, and everything else is an escape: the usual letters
(`\n`, `\t`, …) first, then `\x` for the other ASCII controls and for stray bytes, `\u` and `\U` for
the rest by code point.

## Contents

* `quote`, `quoteBytes`: a text, or a byte string, in double quotes; `quoteByte`: one byte, read as a
  code point, in single quotes.
* `unquote?`: the byte string that a text in double quotes stands for. It also reads octal escapes,
  which `quote` never writes.
-/

namespace StackMap.Text

/-- The lower-case hexadecimal digit of a number below 16. -/
def hexDigit (n : Nat) : Char := if n < 10 then Char.ofNat (48 + n) else Char.ofNat (87 + n)

/-- The last `width` hexadecimal digits of a number. -/
def hexDigits : (width : Nat) → Nat → List Char
  | 0, _ => []
  | width + 1, n => hexDigits width (n / 16) ++ [hexDigit (n % 16)]

/-- The letter of a control character's short escape. -/
def escapeLetter? (c : Char) : Option Char :=
  match c.toNat with
  | 7 => some 'a'
  | 8 => some 'b'
  | 9 => some 't'
  | 10 => some 'n'
  | 11 => some 'v'
  | 12 => some 'f'
  | 13 => some 'r'
  | _ => none

/-- A character as it stands inside the given quotes. -/
def quoteChar (mark : Char) (c : Char) : List Char :=
  if c = mark ∨ c = '\\' then ['\\', c]
  else if isPrintable c then [c]
  else match escapeLetter? c with
    | some letter => ['\\', letter]
    | none =>
      if c.toNat < 0x80 then '\\' :: 'x' :: hexDigits 2 c.toNat
      else if c.toNat < 0x10000 then '\\' :: 'u' :: hexDigits 4 c.toNat
      else '\\' :: 'U' :: hexDigits 8 c.toNat

/-- A piece of a byte string as it stands inside double quotes. -/
def quotePiece : Piece → List Char
  | .char c => quoteChar '"' c
  | .stray b => '\\' :: 'x' :: hexDigits 2 b.toNat

/-- **A text in double quotes.** -/
def quote (s : String) : String :=
  String.ofList ('"' :: s.toList.flatMap (quoteChar '"') ++ ['"'])

/-- **A byte string in double quotes**, read as UTF-8 as far as possible. -/
def quoteBytes (bytes : List UInt8) : String :=
  String.ofList ('"' :: (pieces bytes).flatMap quotePiece ++ ['"'])

/-- A byte, taken as a code point, in single quotes. -/
def quoteByte (b : UInt8) : String :=
  String.ofList ('\'' :: quoteChar '\'' (Char.ofNat b.toNat) ++ ['\''])

/-- The value of a hexadecimal digit. -/
def hexValue? (c : Char) : Option Nat :=
  let n := c.toNat
  if 48 ≤ n ∧ n ≤ 57 then some (n - 48)
  else if 97 ≤ n ∧ n ≤ 102 then some (n - 87)
  else if 65 ≤ n ∧ n ≤ 70 then some (n - 55)
  else none

/-- The value of an octal digit. -/
def octalValue? (c : Char) : Option Nat :=
  if 48 ≤ c.toNat ∧ c.toNat ≤ 55 then some (c.toNat - 48) else none

/-- Reads exactly `width` digits of the given base, continuing the number `acc`. -/
def readDigits (value? : Char → Option Nat) (base : Nat) :
    (width : Nat) → (acc : Nat) → List Char → Option (Nat × List Char)
  | 0, acc, s => some (acc, s)
  | _ + 1, _, [] => none
  | width + 1, acc, c :: s => do
    let digit ← value? c
    readDigits value? base width (acc * base + digit) s

/-- The bytes that an escape stands for, given what follows its backslash, and the text behind it. -/
def unescape? : List Char → Option (List UInt8 × List Char)
  | [] => none
  | 'a' :: s => some ([7], s)
  | 'b' :: s => some ([8], s)
  | 'f' :: s => some ([12], s)
  | 'n' :: s => some ([10], s)
  | 'r' :: s => some ([13], s)
  | 't' :: s => some ([9], s)
  | 'v' :: s => some ([11], s)
  | '\\' :: s => some ([92], s)
  | '"' :: s => some ([34], s)
  | 'x' :: s => do
    let (n, s) ← readDigits hexValue? 16 2 0 s
    return ([n.toUInt8], s)
  | 'u' :: s => do
    let (n, s) ← readDigits hexValue? 16 4 0 s
    return (String.utf8EncodeChar (← scalar? 0 n), s)
  | 'U' :: s => do
    let (n, s) ← readDigits hexValue? 16 8 0 s
    return (String.utf8EncodeChar (← scalar? 0 n), s)
  | c :: s => do
    let high ← octalValue? c
    let (n, s) ← readDigits octalValue? 8 2 high s
    if n < 256 then some ([n.toUInt8], s) else none

theorem length_readDigits {value? : Char → Option Nat} {base width acc n : Nat}
    {s rest : List Char} (h : readDigits value? base width acc s = some (n, rest)) :
    rest.length ≤ s.length := by
  induction width generalizing acc s with
  | zero => simp_all [readDigits]
  | succ width ih =>
    cases s with
    | nil => simp [readDigits] at h
    | cons c s =>
      simp only [readDigits, Option.bind_eq_bind, Option.bind_eq_some_iff] at h
      obtain ⟨_, _, h⟩ := h
      have := ih h
      simp only [List.length_cons]
      omega

/-- An escape leaves a shorter text. -/
theorem length_unescape? {s rest : List Char} {bytes : List UInt8}
    (h : unescape? s = some (bytes, rest)) : rest.length < s.length := by
  unfold unescape? at h
  split at h
  case h_1 => simp at h
  case h_11 | h_12 | h_13 =>
    simp only [Option.bind_eq_bind, Option.bind_eq_some_iff, Option.pure_def, Option.some.injEq,
      Prod.mk.injEq] at h
    grind [→ length_readDigits]
  case h_14 =>
    simp only [Option.bind_eq_bind, Option.bind_eq_some_iff] at h
    grind [→ length_readDigits]
  all_goals
    simp only [Option.some.injEq, Prod.mk.injEq] at h
    simp [← h.2]

/-- The inside of a quoted text up to its closing quote, which must be the last character. -/
def unquoteBody? : List Char → Option (List UInt8)
  | [] => none
  | c :: s =>
    if c = '"' then if s.isEmpty then some [] else none
    else if c = '\n' then none
    else if c = '\\' then
      match _h : unescape? s with
      | none => none
      | some (bytes, rest) => (unquoteBody? rest).map (bytes ++ ·)
    else (unquoteBody? s).map (String.utf8EncodeChar c ++ ·)
termination_by s => s.length
decreasing_by
  · have := length_unescape? _h
    simp only [List.length_cons]; omega
  · simp

/-- **Reading a text in double quotes**: the byte string that it stands for. -/
def unquote? : List Char → Option (List UInt8)
  | '"' :: s => unquoteBody? s
  | _ => none

end StackMap.Text
