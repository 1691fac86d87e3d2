import StackMap.Text.Quoted

/-!
# `Toml.Token`: the words and marks of a settings file

## Contents

* `Toml.Token`: words, quoted texts and marks.
* `Toml.tokens?`: the tokens of a text, without its blanks and comments.
-/

namespace StackMap.Toml

/-- **Tokens.** A word is a key, a number or a truth value. The end of a line counts. -/
inductive Token where
  | word (s : String)
  | text (s : String)
  | equals
  | opening
  | closing
  | comma
  | newline
  deriving Repr, DecidableEq

/-- Whether a character can be part of a word. -/
def isWordChar (c : Char) : Bool :=
  c.isAlphanum || c = '_' || c = '-' || c = '+' || c = '.' || c = ':'

/-- Whether a character may not stand in quoted texts and comments. -/
def isControl (c : Char) : Bool := (c.toNat < 0x20 && c != '\t') || c.toNat = 0x7F

/-- Where in a text a position is, with what has been read of the current token, the last character
first. -/
inductive Place where
  | between
  | word (read : List Char)
  | quoted (read : List Char)
  /-- Behind a backslash in a quoted text. -/
  | escape (read : List Char)
  /-- In the digits of an escape by code point. -/
  | codePoint (digits n : Nat) (read : List Char)
  | literal (read : List Char)
  | comment

/-- The token of characters that were read backwards. -/
def wordOf (read : List Char) : Token := .word (String.ofList read.reverse)

/-- The quoted text of characters that were read backwards. -/
def textOf (read : List Char) : Token := .text (String.ofList read.reverse)

/-- What a character between tokens begins: the place behind it, and the token that it is by itself. -/
def beginWith (c : Char) : Option (Place × List Token) :=
  if c = ' ' ∨ c = '\t' then some (.between, [])
  else if c = '\n' then some (.between, [.newline])
  else if c = '=' then some (.between, [.equals])
  else if c = '[' then some (.between, [.opening])
  else if c = ']' then some (.between, [.closing])
  else if c = ',' then some (.between, [.comma])
  else if c = '#' then some (.comment, [])
  else if c = '"' then some (.quoted [], [])
  else if c = '\'' then some (.literal [], [])
  else if isWordChar c then some (.word [c], [])
  else none

/-- The place behind the letter of an escape. -/
def escapeWith (c : Char) (read : List Char) : Option Place :=
  match c with
  | 'b' => some (.quoted ('\x08' :: read))
  | 't' => some (.quoted ('\t' :: read))
  | 'n' => some (.quoted ('\n' :: read))
  | 'f' => some (.quoted ('\x0c' :: read))
  | 'r' => some (.quoted ('\r' :: read))
  | 'e' => some (.quoted ('\x1b' :: read))
  | '"' => some (.quoted ('"' :: read))
  | '\\' => some (.quoted ('\\' :: read))
  | 'u' => some (.codePoint 4 0 read)
  | 'U' => some (.codePoint 8 0 read)
  | _ => none

/-- The place behind a digit of an escape by code point. -/
def digitWith (c : Char) (digits n : Nat) (read : List Char) : Option Place := do
  let n := n * 16 + (← Text.hexValue? c)
  if digits ≤ 1 then return .quoted ((← Text.scalar? 0 n) :: read)
  else return .codePoint (digits - 1) n read

/-- The tokens from a place on. -/
def scan : Place → List Char → Option (List Token)
  | .between, [] => some []
  | .comment, [] => some []
  | .word read, [] => some [wordOf read]
  | _, [] => none
  | .between, c :: rest => do
    let (place, tokens) ← beginWith c
    return tokens ++ (← scan place rest)
  | .word read, c :: rest =>
    if isWordChar c then scan (.word (c :: read)) rest
    else do
      let (place, tokens) ← beginWith c
      return wordOf read :: tokens ++ (← scan place rest)
  | .quoted read, c :: rest =>
    if c = '"' then (scan .between rest).map (textOf read :: ·)
    else if c = '\\' then scan (.escape read) rest
    else if isControl c then none
    else scan (.quoted (c :: read)) rest
  | .escape read, c :: rest => do scan (← escapeWith c read) rest
  | .codePoint digits n read, c :: rest => do scan (← digitWith c digits n read) rest
  | .literal read, c :: rest =>
    if c = '\'' then (scan .between rest).map (textOf read :: ·)
    else if isControl c then none
    else scan (.literal (c :: read)) rest
  | .comment, c :: rest =>
    if c = '\n' then (scan .between rest).map (.newline :: ·)
    else if isControl c then none
    else scan .comment rest

/-- A text in which every line ends with a line feed alone. -/
def dropReturns : List Char → List Char
  | '\r' :: '\n' :: rest => '\n' :: dropReturns rest
  | c :: rest => c :: dropReturns rest
  | [] => []

/-- **The tokens of a text**, if it has only well-formed ones. -/
def tokens? (s : String) : Option (List Token) := scan .between (dropReturns s.toList)

end StackMap.Toml
