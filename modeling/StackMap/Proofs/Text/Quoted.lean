import Mathlib.Data.List.Basic
import StackMap.Text.Quoted

/-!
# `Proofs.Text.Quoted`: quoted texts read back

A byte string is read as characters as far as that goes, and nothing is lost by it: the characters, encoded
again, and the stray bytes are the byte string. In quotes each of them is written on its own, so that it is
enough to go through the ways to write one. What is written for one is read back as its bytes, whatever stands
behind it.

## Contents

* `Piece.bytes`, `flatMap_pieces`: the pieces of a byte string make it up.
* `readDigits_hexDigits`: hexadecimal digits read back.
* `quotePiece_cases`: what stands for a piece in quotes; `unquoteBody?_quotePiece`: it reads back.
* `unquote?_quoteBytes`: a byte string in quotes reads back.
-/

namespace StackMap.Text

/-! ## Pieces -/

theorem scalar?_eq_some {least n : Nat} {c : Char} (h : scalar? least n = some c) :
    c.toNat = n ∧ least ≤ n := by
  unfold scalar? at h
  by_cases hn : least ≤ n ∧ n.isValidChar
  · rw [dif_pos hn] at h
    cases h
    exact ⟨rfl, hn.1⟩
  · rw [dif_neg hn] at h
    cases h

theorem scalar?_toNat (c : Char) : scalar? 0 c.toNat = some c := by
  have hvalid : c.toNat.isValidChar := c.valid
  unfold scalar?
  rw [dif_pos ⟨Nat.zero_le _, hvalid⟩]
  exact congrArg some (Char.ext rfl)

/-- A byte with a payload is one that continues a sequence. -/
theorem continuation?_eq_some {b : UInt8} {n : Nat} (h : continuation? b = some n) :
    b.toNat = n + 128 ∧ n < 64 := by
  unfold continuation? at h
  split at h
  · cases h
    omega
  · cases h

theorem ofNat_eq {b : UInt8} {n : Nat} (h : n = b.toNat) : UInt8.ofNat n = b := by
  rw [h, UInt8.ofNat_toNat]

/-- The encoding of a character in one byte, or in two, three or four. -/
theorem encodeChar_eq {c : Char} {n : Nat} (h : c.toNat = n) :
    String.utf8EncodeChar c =
      if n ≤ 0x7f then [.ofNat n]
      else if n ≤ 0x7ff then [.ofNat (n / 64 % 32 + 0xc0), .ofNat (n % 64 + 0x80)]
      else if n ≤ 0xffff then
        [.ofNat (n / 4096 % 16 + 0xe0), .ofNat (n / 64 % 64 + 0x80), .ofNat (n % 64 + 0x80)]
      else
        [.ofNat (n / 262144 % 8 + 0xf0), .ofNat (n / 4096 % 64 + 0x80), .ofNat (n / 64 % 64 + 0x80),
          .ofNat (n % 64 + 0x80)] := by
  rw [← h]
  rfl

/-- The bytes of a list that decoding looks at. -/
theorem take_one_of_getElem? {rest : List UInt8} {b : UInt8} (h : rest[0]? = some b) : rest.take 1 = [b] := by
  cases rest with
  | nil => exact nomatch h
  | cons x rest =>
    cases h
    rfl

/-- **The character that decoding finds** is encoded as the bytes that it is found in. One case for each number
of bytes. -/
theorem encodeChar_of_decodeFirst? {first : UInt8} {rest : List UInt8} {c : Char} {n : Nat}
    (h : decodeFirst? first rest = some (c, n)) : String.utf8EncodeChar c = first :: rest.take n := by
  have hfirst := first.toNat_lt
  unfold decodeFirst? at h
  dsimp only at h
  split at h
  · obtain ⟨c', hc, h⟩ := Option.map_eq_some_iff.mp h
    cases h
    obtain ⟨hvalue, -⟩ := scalar?_eq_some hc
    rw [encodeChar_eq hvalue, if_pos (by omega), List.take_zero, ofNat_eq rfl]
  split at h
  · cases h
  split at h
  · simp only [Option.bind_eq_bind, Option.bind_eq_some_iff, Option.pure_def, Option.some.injEq,
      Prod.mk.injEq] at h
    obtain ⟨n1, ⟨b1, hb1, h1⟩, c', hc, rfl, rfl⟩ := h
    obtain ⟨hvalue, hleast⟩ := scalar?_eq_some hc
    obtain ⟨h1, hlt1⟩ := continuation?_eq_some h1
    rw [encodeChar_eq hvalue, if_neg (by omega), if_pos (by omega), take_one_of_getElem? hb1,
      ofNat_eq (b := first) (by omega), ofNat_eq (b := b1) (by omega)]
  split at h
  · simp only [Option.bind_eq_bind, Option.bind_eq_some_iff, Option.pure_def, Option.some.injEq,
      Prod.mk.injEq] at h
    obtain ⟨n1, ⟨b1, hb1, h1⟩, n2, ⟨b2, hb2, h2⟩, c', hc, rfl, rfl⟩ := h
    obtain ⟨hvalue, hleast⟩ := scalar?_eq_some hc
    obtain ⟨h1, hlt1⟩ := continuation?_eq_some h1
    obtain ⟨h2, hlt2⟩ := continuation?_eq_some h2
    have htake : rest.take 2 = [b1, b2] := by
      rw [List.take_add_one, take_one_of_getElem? hb1, hb2]
      rfl
    rw [encodeChar_eq hvalue, if_neg (by omega), if_neg (by omega), if_pos (by omega), htake,
      ofNat_eq (b := first) (by omega), ofNat_eq (b := b1) (by omega), ofNat_eq (b := b2) (by omega)]
  split at h
  · simp only [Option.bind_eq_bind, Option.bind_eq_some_iff, Option.pure_def, Option.some.injEq,
      Prod.mk.injEq] at h
    obtain ⟨n1, ⟨b1, hb1, h1⟩, n2, ⟨b2, hb2, h2⟩, n3, ⟨b3, hb3, h3⟩, c', hc, rfl, rfl⟩ := h
    obtain ⟨hvalue, hleast⟩ := scalar?_eq_some hc
    obtain ⟨h1, hlt1⟩ := continuation?_eq_some h1
    obtain ⟨h2, hlt2⟩ := continuation?_eq_some h2
    obtain ⟨h3, hlt3⟩ := continuation?_eq_some h3
    have htake : rest.take 3 = [b1, b2, b3] := by
      rw [List.take_add_one, List.take_add_one, take_one_of_getElem? hb1, hb2, hb3]
      rfl
    rw [encodeChar_eq hvalue, if_neg (by omega), if_neg (by omega), if_neg (by omega), htake,
      ofNat_eq (b := first) (by omega), ofNat_eq (b := b1) (by omega), ofNat_eq (b := b2) (by omega),
      ofNat_eq (b := b3) (by omega)]
  · cases h

/-- The bytes of a piece: those of the character, or the stray byte. -/
def Piece.bytes : Piece → List UInt8
  | .char c => String.utf8EncodeChar c
  | .stray b => [b]

/-- **The pieces of a byte string make it up.** By induction on the reading. -/
theorem flatMap_pieces (bytes : List UInt8) : (pieces bytes).flatMap Piece.bytes = bytes := by
  induction bytes using pieces.induct with
  | case1 =>
    rw [pieces]
    rfl
  | case2 b rest c n hdecode ih =>
    rw [pieces, hdecode]
    show String.utf8EncodeChar c ++ (pieces (rest.drop n)).flatMap Piece.bytes = _
    rw [ih, encodeChar_of_decodeFirst? hdecode, List.cons_append, List.take_append_drop]
  | case3 b rest hdecode ih =>
    rw [pieces, hdecode]
    show [b] ++ (pieces rest).flatMap Piece.bytes = _
    rw [ih]
    rfl

/-! ## Hexadecimal digits -/

theorem hexValue?_hexDigit {n : Nat} (h : n < 16) : hexValue? (hexDigit n) = some n := by
  have hall : ∀ k : Fin 16, hexValue? (hexDigit k) = some k.val := by decide
  exact hall ⟨n, h⟩

/-- Digits are read one behind the other. -/
theorem readDigits_add {value? : Char → Option Nat} {base : Nat} (width more acc : Nat) (s : List Char) :
    readDigits value? base (width + more) acc s =
      (readDigits value? base width acc s).bind fun (n, rest) => readDigits value? base more n rest := by
  induction width generalizing acc s with
  | zero =>
    rw [Nat.zero_add]
    rfl
  | succ width ih =>
    rw [Nat.succ_add_eq_add_succ, Nat.add_succ]
    cases s with
    | nil => rfl
    | cons c s =>
      show ((value? c).bind fun digit => readDigits value? base (width + more) (acc * base + digit) s) =
        ((value? c).bind fun digit => readDigits value? base width (acc * base + digit) s).bind _
      rw [Option.bind_assoc]
      congr 1
      funext digit
      exact ih (acc * base + digit) s

/-- **Hexadecimal digits read back**, behind what has been read before. By induction on their number: all but
the last one are the digits of a sixteenth of the number. -/
theorem readDigits_hexDigits (width acc n : Nat) (s : List Char) :
    readDigits hexValue? 16 width acc (hexDigits width n ++ s) =
      some (acc * Nat.pow 16 width + n % Nat.pow 16 width, s) := by
  induction width generalizing n s with
  | zero =>
    show some (acc, s) = some (acc * 1 + n % 1, s)
    rw [Nat.mod_one, Nat.mul_one, Nat.add_zero]
  | succ width ih =>
    have hpow : Nat.pow 16 (width + 1) = 16 * Nat.pow 16 width := Nat.mul_comm _ _
    rw [hexDigits, List.append_assoc, readDigits_add, ih, Option.bind_some, hpow, Nat.mod_mul,
      Nat.mul_left_comm]
    generalize acc * Nat.pow 16 width = front
    generalize n / 16 % Nat.pow 16 width = rest
    show readDigits hexValue? 16 1 (front + rest) (hexDigit (n % 16) :: s) = _
    have hvalue : (front + rest) * 16 + n % 16 = 16 * front + (n % 16 + 16 * rest) := by omega
    rw [readDigits, hexValue?_hexDigit (Nat.mod_lt n (by decide)), ← hvalue]
    rfl

/-! ## Escapes -/

theorem unescape?_hex2 {n : Nat} (h : n < 256) (s : List Char) :
    unescape? ('x' :: (hexDigits 2 n ++ s)) = some ([n.toUInt8], s) := by
  show ((readDigits hexValue? 16 2 0 (hexDigits 2 n ++ s)).bind fun (n, s) => some ([n.toUInt8], s)) = _
  have hmod : n % Nat.pow 16 2 = n := Nat.mod_eq_of_lt h
  rw [readDigits_hexDigits, Nat.zero_mul, Nat.zero_add, hmod]
  rfl

theorem unescape?_hex4 {c : Char} (h : c.toNat < 0x10000) (s : List Char) :
    unescape? ('u' :: (hexDigits 4 c.toNat ++ s)) = some (String.utf8EncodeChar c, s) := by
  show ((readDigits hexValue? 16 4 0 (hexDigits 4 c.toNat ++ s)).bind fun (n, s) =>
    (scalar? 0 n).bind fun c => some (String.utf8EncodeChar c, s)) = _
  have hmod : c.toNat % Nat.pow 16 4 = c.toNat := Nat.mod_eq_of_lt h
  rw [readDigits_hexDigits, Nat.zero_mul, Nat.zero_add, hmod, Option.bind_some]
  dsimp only
  rw [scalar?_toNat]
  rfl

theorem unescape?_hex8 (c : Char) (s : List Char) :
    unescape? ('U' :: (hexDigits 8 c.toNat ++ s)) = some (String.utf8EncodeChar c, s) := by
  have hmod : c.toNat % Nat.pow 16 8 = c.toNat :=
    Nat.mod_eq_of_lt (Nat.lt_of_lt_of_le c.val.toNat_lt (by decide))
  show ((readDigits hexValue? 16 8 0 (hexDigits 8 c.toNat ++ s)).bind fun (n, s) =>
    (scalar? 0 n).bind fun c => some (String.utf8EncodeChar c, s)) = _
  rw [readDigits_hexDigits, Nat.zero_mul, Nat.zero_add, hmod, Option.bind_some]
  dsimp only
  rw [scalar?_toNat]
  rfl

/-- The letter of a short escape stands for the control character. -/
theorem unescape?_letter {c letter : Char} (h : escapeLetter? c = some letter) (s : List Char) :
    unescape? (letter :: s) = some (String.utf8EncodeChar c, s) := by
  have hbytes : ∀ {n : Nat}, c.toNat = n → n ≤ 0x7f → String.utf8EncodeChar c = [.ofNat n] := by
    intro n hn hle
    rw [encodeChar_eq hn, if_pos hle]
  unfold escapeLetter? at h
  split at h
  case h_8 => cases h
  all_goals
    rename_i hcode
    cases h
    rw [hbytes hcode (by decide)]
    rfl

/-! ## Pieces in quotes -/

/-- An escape inside quotes. -/
theorem unquoteBody?_escape {s rest : List Char} {bytes : List UInt8} (h : unescape? s = some (bytes, rest)) :
    unquoteBody? ('\\' :: s) = (unquoteBody? rest).map (bytes ++ ·) := by
  rw [unquoteBody?, if_neg (by decide), if_neg (by decide), if_pos rfl]
  split
  · rename_i hnone
    cases hnone.symm.trans h
  · rename_i hsome
    cases hsome.symm.trans h
    rfl

/-- A character that stands for itself. -/
theorem unquoteBody?_plain {c : Char} (hquote : c ≠ '"') (hline : c ≠ '\n') (hback : c ≠ '\\')
    (s : List Char) : unquoteBody? (c :: s) = (unquoteBody? s).map (String.utf8EncodeChar c ++ ·) := by
  rw [unquoteBody?, if_neg hquote, if_neg hline, if_neg hback]

theorem isPrintable_ne_newline {c : Char} (h : isPrintable c) : c ≠ '\n' := by
  rintro rfl
  exact absurd h (by decide)

/-- **A character in quotes reads back.** -/
theorem unquoteBody?_quoteChar (c : Char) (s : List Char) :
    unquoteBody? (quoteChar '"' c ++ s) = (unquoteBody? s).map (String.utf8EncodeChar c ++ ·) := by
  unfold quoteChar
  split
  · rename_i hmark
    rcases hmark with rfl | rfl
    · exact unquoteBody?_escape rfl
    · exact unquoteBody?_escape rfl
  rename_i hmark
  obtain ⟨hquote, hback⟩ := not_or.mp hmark
  split
  · rename_i hprintable
    exact unquoteBody?_plain hquote (isPrintable_ne_newline hprintable) hback s
  split
  · rename_i hletter
    exact unquoteBody?_escape (unescape?_letter hletter s)
  split
  · rename_i hlt
    have hescape := unescape?_hex2 (n := c.toNat) (by omega) s
    have hbytes : String.utf8EncodeChar c = [c.toNat.toUInt8] := by
      rw [encodeChar_eq rfl, if_pos (by omega)]
    rw [hbytes]
    exact unquoteBody?_escape hescape
  split
  · rename_i hlt
    exact unquoteBody?_escape (unescape?_hex4 hlt s)
  · exact unquoteBody?_escape (unescape?_hex8 c s)

/-- No hexadecimal digit has a meaning of its own inside quotes. -/
theorem inert_of_mem_hexDigits {width n : Nat} {c : Char} (h : c ∈ hexDigits width n) :
    c ≠ '\\' ∧ c ≠ '"' ∧ c ≠ '\n' := by
  have hall : ∀ k : Fin 16, hexDigit k ≠ '\\' ∧ hexDigit k ≠ '"' ∧ hexDigit k ≠ '\n' := by decide
  induction width generalizing n with
  | zero => exact absurd h List.not_mem_nil
  | succ width ih =>
    rcases List.mem_append.mp h with h | h
    · exact ih h
    · rw [List.mem_singleton.mp h]
      exact hall ⟨n % 16, Nat.mod_lt n (by decide)⟩

/-- **What stands for a piece in quotes**: a character that has no meaning of its own there, or a backslash and
a character with further ones behind it that have none. Neither contains a line feed. -/
theorem quotePiece_cases (p : Piece) :
    (∃ c, quotePiece p = [c] ∧ c ≠ '\\' ∧ c ≠ '"' ∧ c ≠ '\n') ∨
      ∃ c digits, quotePiece p = '\\' :: c :: digits ∧ c ≠ '\n' ∧
        ∀ d ∈ digits, d ≠ '\\' ∧ d ≠ '"' ∧ d ≠ '\n' := by
  cases p with
  | stray b => exact .inr ⟨'x', hexDigits 2 b.toNat, rfl, by decide, fun d hd => inert_of_mem_hexDigits hd⟩
  | char c =>
    show (∃ d, quoteChar '"' c = [d] ∧ _) ∨ ∃ d digits, quoteChar '"' c = '\\' :: d :: digits ∧ _
    unfold quoteChar
    split
    · rename_i hmark
      refine .inr ⟨c, [], rfl, ?_, fun d hd => absurd hd List.not_mem_nil⟩
      rcases hmark with rfl | rfl
      · decide
      · decide
    rename_i hmark
    obtain ⟨hquote, hback⟩ := not_or.mp hmark
    split
    · rename_i hprintable
      exact .inl ⟨c, rfl, hback, hquote, isPrintable_ne_newline hprintable⟩
    split
    · rename_i letter hletter
      refine .inr ⟨letter, [], rfl, ?_, fun d hd => absurd hd List.not_mem_nil⟩
      -- A line feed is written with a letter, and is not itself one of them.
      rintro rfl
      unfold escapeLetter? at hletter
      split at hletter <;> exact absurd hletter (by decide)
    split
    · exact .inr ⟨'x', _, rfl, by decide, fun d hd => inert_of_mem_hexDigits hd⟩
    split
    · exact .inr ⟨'u', _, rfl, by decide, fun d hd => inert_of_mem_hexDigits hd⟩
    · exact .inr ⟨'U', _, rfl, by decide, fun d hd => inert_of_mem_hexDigits hd⟩

/-- **A piece in quotes reads back** as its bytes, whatever stands behind it. -/
theorem unquoteBody?_quotePiece (p : Piece) (s : List Char) :
    unquoteBody? (quotePiece p ++ s) = (unquoteBody? s).map (p.bytes ++ ·) := by
  cases p with
  | char c => exact unquoteBody?_quoteChar c s
  | stray b =>
    have hescape := unescape?_hex2 b.toNat_lt s
    rw [show b.toNat.toUInt8 = b from UInt8.ofNat_toNat] at hescape
    exact unquoteBody?_escape hescape

/-- **A byte string in quotes reads back.** By induction on its pieces. -/
theorem unquote?_quoteBytes (bytes : List UInt8) : unquote? (quoteBytes bytes).toList = some bytes := by
  have hbody : ∀ ps : List Piece,
      unquoteBody? (ps.flatMap quotePiece ++ ['"']) = some (ps.flatMap Piece.bytes) := by
    intro ps
    induction ps with
    | nil =>
      rw [List.flatMap_nil, List.nil_append, unquoteBody?, if_pos rfl]
      rfl
    | cons p ps ih =>
      -- The piece reads back in front of the rest with its quote at the end.
      rw [List.flatMap_cons, List.flatMap_cons, List.append_assoc, unquoteBody?_quotePiece, ih]
      rfl
  rw [quoteBytes, String.toList_ofList, List.cons_append]
  show unquoteBody? _ = _
  rw [hbody, flatMap_pieces]

end StackMap.Text
