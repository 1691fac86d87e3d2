import StackMap.Text.Blank
import StackMap.Text.Quoted
import StackMap.Yaml.Source

/-!
# `Yaml.Scalar`: texts in their four forms

A scalar is plain, in single or double quotes, or a block of lines. In the first three forms the end of
a line stands for a space, and `n + 1` of them for `n` line feeds.

## Contents

* `Yaml.plainScalar`: a scalar without quotes.
* `Yaml.quotedScalar`: a scalar in quotes.
* `Yaml.blockScalar`: a block of lines, kept or folded.
-/

namespace StackMap.Yaml

/-- Several line feeds. -/
def lineFeeds (n : Nat) : List Char := List.replicate n '\n'

/-! ## Plain scalars -/

/-- The characters that a plain scalar cannot begin with. -/
def indicators : List Char := "-?:,[]\x7b\x7d#&*!|>'\"%@`".toList

/-- The characters that end a plain scalar inside of brackets. -/
def flowIndicators : List Char := ",[]\x7b\x7d".toList

/-- Whether a plain scalar begins here. -/
def startsPlain (inFlow : Bool) : List Char → Bool
  | [] => false
  | c :: rest =>
    if c = '-' then !atSpace rest
    else if c = '?' || c = ':' then !inFlow && !atSpace rest
    else !isSpace c && !indicators.contains c

/-- The next word of a plain scalar, and what follows. -/
def plainWord (inFlow : Bool) : List Char → List Char × List Char
  | [] => ([], [])
  | c :: rest =>
    if isSpace c || (c = ':' && atSpace rest) || (inFlow && flowIndicators.contains c) then ([], c :: rest)
    else
      let (word, more) := plainWord inFlow rest
      (c :: word, more)

/-- What stands between two words: blanks, or ends of lines. -/
structure Gap where
  blanks : List Char
  breaks : Nat

/-- A gap as it is read. -/
def Gap.text (g : Gap) : List Char :=
  match g.breaks with
  | 0 => g.blanks
  | 1 => [' ']
  | n + 2 => lineFeeds (n + 1)

/-- The gap from here on. No tab may stand in the indentation of a line. -/
def plainGap (indent : Int) (breaks : Nat) : (column : Nat) → List Char → Except Error (Gap × Nat × List Char)
  | column, [] => .ok (⟨[], breaks⟩, column, [])
  | column, c :: rest =>
    if c = '\n' then plainGap indent (breaks + 1) 0 rest
    else if isBlank c then
      if c = '\t' ∧ 0 < breaks ∧ column < indent then .error .malformed
      else do
        let (gap, column, rest) ← plainGap indent breaks (column + 1) rest
        return ({ gap with blanks := c :: gap.blanks }, column, rest)
    else .ok (⟨[], breaks⟩, column, c :: rest)

/-- The words of a plain scalar from here on, with the gaps between them. The lines after the first one
have to start at the column `indent` at least. Also says how many ends of lines were passed. -/
def plainWords (inFlow : Bool) (indent : Int) :
    (fuel : Nat) → (column : Nat) → List Char → Except Error (List Char × Nat × Source)
  | 0, _, _ => .error .malformed
  | fuel + 1, column, s => do
    let (word, rest) := plainWord inFlow s
    let (gap, column, rest) ← plainGap indent 0 (column + word.length) rest
    let passed : Source := ⟨rest, column, 0 < gap.breaks⟩
    let ends := rest.isEmpty || rest.head? == some '#' || isDocumentMark column rest ||
      (!inFlow && column < indent) || (plainWord inFlow rest).1.isEmpty
    if ends then return (word, gap.breaks, passed)
    else
      let (words, breaks, source) ← plainWords inFlow indent fuel column rest
      return (word ++ gap.text ++ words, gap.breaks + breaks, source)

/-- **A plain scalar**, and whether it and the blanks behind it stay in one line. -/
def plainScalar (inFlow : Bool) (indent : Int) : Parser (Scalar × Bool) := do
  let s ← get
  let (text, breaks, source) ← plainWords inFlow indent (s.rest.length + 1) s.column s.rest
  set { source with keyAllowed := !inFlow && source.keyAllowed }
  return (⟨true, String.ofList text⟩, breaks == 0)

/-! ## Scalars in quotes -/

/-- Where in a quoted scalar a position is. -/
inductive QuotePlace where
  | text
  /-- Behind a backslash. -/
  | escape
  /-- In the digits of an escape by code point. -/
  | codePoint (digits n : Nat)
  /-- Behind a single quote, which is the end or the first of two. -/
  | quote

/-- What was passed since the last character of a quoted scalar that is not blank. -/
inductive QuoteGap where
  | blanks (backwards : List Char)
  /-- Ends of lines; the first one may have had a backslash in front of it. -/
  | lines (escaped : Bool) (more : Nat)

/-- A gap as it is read. -/
def QuoteGap.text : QuoteGap → List Char
  | .blanks backwards => backwards.reverse
  | .lines escaped 0 => if escaped then [] else [' ']
  | .lines _ (n + 1) => lineFeeds (n + 1)

/-- The gap with a further blank or end of line. -/
def QuoteGap.add (c : Char) : QuoteGap → QuoteGap
  | .blanks backwards => if c = '\n' then .lines false 0 else .blanks (c :: backwards)
  | .lines escaped n => if c = '\n' then .lines escaped (n + 1) else .lines escaped n

/-- The character of an escape by a single letter. -/
def escaped? : Char → Option Char
  | '0' => some '\x00'
  | 'a' => some '\x07'
  | 'b' => some '\x08'
  | 't' => some '\t'
  | '\t' => some '\t'
  | 'n' => some '\n'
  | 'v' => some '\x0b'
  | 'f' => some '\x0c'
  | 'r' => some '\r'
  | 'e' => some '\x1b'
  | ' ' => some ' '
  | '"' => some '"'
  | '\'' => some '\''
  | '/' => some '/'
  | '\\' => some '\\'
  | 'N' => some '\u0085'
  | '_' => some '\u00a0'
  | 'L' => some '\u2028'
  | 'P' => some '\u2029'
  | _ => none

/-- The number of digits of an escape by code point. -/
def codeDigits? : Char → Option Nat
  | 'x' => some 2
  | 'u' => some 4
  | 'U' => some 8
  | _ => none

/-- The inside of a quoted scalar from here on, and the position behind it. `read` is what has been read,
the last character first. -/
def quotedBody (mark : Char) :
    QuotePlace → QuoteGap → (read : List Char) → (column : Nat) → List Char →
      Except Error (List Char × Nat × List Char)
  | .quote, _, read, column, [] => .ok (read.reverse, column, [])
  | _, _, _, _, [] => .error .malformed
  | .text, gap, read, column, c :: rest =>
    if isDocumentMark column (c :: rest) then .error .malformed
    else if isSpace c then quotedBody mark .text (gap.add c) read (columnAfter c column) rest
    else
      let read := gap.text.reverse ++ read
      if c = mark then
        if mark = '\'' then quotedBody mark .quote (.blanks []) read (column + 1) rest
        else .ok (read.reverse, column + 1, rest)
      else if c = '\\' ∧ mark = '"' then quotedBody mark .escape (.blanks []) read (column + 1) rest
      else quotedBody mark .text (.blanks []) (c :: read) (column + 1) rest
  | .quote, _, read, column, c :: rest =>
    if c = mark then quotedBody mark .text (.blanks []) (c :: read) (column + 1) rest
    else .ok (read.reverse, column, c :: rest)
  | .escape, _, read, column, c :: rest =>
    if c = '\n' then quotedBody mark .text (.lines true 0) read 0 rest
    else match escaped? c, codeDigits? c with
      | some e, _ => quotedBody mark .text (.blanks []) (e :: read) (column + 1) rest
      | none, some digits => quotedBody mark (.codePoint digits 0) (.blanks []) read (column + 1) rest
      | none, none => .error .malformed
  | .codePoint digits n, _, read, column, c :: rest =>
    match Text.hexValue? c with
    | none => .error .malformed
    | some d =>
      if 1 < digits then
        quotedBody mark (.codePoint (digits - 1) (n * 16 + d)) (.blanks []) read (column + 1) rest
      else match Text.scalar? 0 (n * 16 + d) with
        | some e => quotedBody mark .text (.blanks []) (e :: read) (column + 1) rest
        | none => .error .malformed

/-- **A scalar in quotes**, and whether it and the blanks behind it stay in one line. -/
def quotedScalar (mark : Char) : Parser (Scalar × Bool) := do
  let s ← get
  let (text, column, rest) ← quotedBody mark .text (.blanks []) [] (s.column + 1) s.rest.tail
  let taken := s.rest.take (s.rest.length - rest.length)
  let blanks := rest.takeWhile isBlank
  set (⟨rest.drop blanks.length, column + blanks.length, false⟩ : Source)
  return (⟨false, String.ofList text⟩, !taken.contains '\n')

/-! ## Blocks of lines -/

/-- What becomes of the line feeds at the end of a block: none is kept, one, or all. -/
inductive Chomp where
  | strip
  | clip
  | keep
  deriving DecidableEq

/-- The heading of a block: how it ends, and how far it is indented if that is said. -/
structure BlockHead where
  chomp : Chomp
  indentation : Option Nat

/-- The end of a block that a character stands for. -/
def chomp? : Char → Option Chomp
  | '-' => some .strip
  | '+' => some .keep
  | _ => none

/-- The indentation that a character stands for. -/
def indentation? (c : Char) : Option Nat :=
  if '1' ≤ c ∧ c ≤ '9' then some (c.toNat - 48) else none

/-- Whether only blanks and a comment follow in a line. -/
def endsLine (line : List Char) : Bool :=
  match line.dropWhile isBlank with
  | [] => true
  | c :: _ => c = '#'

/-- The heading of a block in the line behind its mark. Its two parts come in any order. -/
def blockHead? (line : List Char) : Option BlockHead :=
  let chomp := line.head?.bind chomp?
  let indentation := line.head?.bind indentation?
  let second := line.tail.head?
  let head : BlockHead × Nat :=
    match chomp, indentation with
    | some chomp, _ =>
      match second.bind indentation? with
      | some n => (⟨chomp, some n⟩, 2)
      | none => (⟨chomp, none⟩, 1)
    | none, some n =>
      match second.bind chomp? with
      | some chomp => (⟨chomp, some n⟩, 2)
      | none => (⟨.clip, some n⟩, 1)
    | none, none => (⟨.clip, none⟩, 0)
  if endsLine (line.drop head.2) then some head.1 else none

/-- The number of spaces at the start of a line. -/
def spaces (line : List Char) : Nat := (line.takeWhile (· == ' ')).length

/-- The indentation of a block whose heading does not say it: that of its first line which is not empty,
or that of an empty line before it if that is larger. No tab may follow it. -/
def findIndentation (least : Nat) : List (List Char) → Except Error Nat
  | [] => .ok least
  | line :: more =>
    let n := spaces line
    match line.drop n with
    | [] => findIndentation (max least n) more
    | c :: _ => if c = '\t' then .error .malformed else .ok (max least n)

/-- A line of a block without its indentation, and whether it has ended. -/
structure BlockLine where
  text : List Char
  ended : Bool

/-- The lines of a block, and the lines that follow it. -/
def blockLines (indentation : Nat) : List (List Char) → Except Error (List BlockLine × List (List Char))
  | [] => .ok ([], [])
  | line :: more =>
    let n := min indentation (spaces line)
    match line.drop n with
    | [] =>
      if more.isEmpty then .ok ([], [])
      else do
        let (block, rest) ← blockLines indentation more
        return (⟨[], true⟩ :: block, rest)
    | c :: content =>
      if n < indentation then
        if c = '\t' then .error .malformed else .ok ([], line :: more)
      else do
        let (block, rest) ← blockLines indentation more
        return (⟨c :: content, !more.isEmpty⟩ :: block, rest)

/-- A block as it has been read: the text, whether its last line has ended, the number of empty lines
behind it, and whether that line began with a blank. -/
structure Block where
  text : List Char
  ended : Bool
  empty : Nat
  indented : Bool

/-- The block with a further line. In a folded block a line feed between two lines that do not begin with
blanks is a space, or nothing if empty lines follow it. -/
def Block.add (folded : Bool) (b : Block) (line : BlockLine) : Block :=
  match line.text with
  | [] => { b with empty := b.empty + 1 }
  | c :: _ =>
    let indented := isBlank c
    let feed : List Char :=
      if !b.ended then []
      else if folded && !b.indented && !indented then (if b.empty = 0 then [' '] else [])
      else ['\n']
    ⟨b.text ++ feed ++ lineFeeds b.empty ++ line.text, line.ended, 0, indented⟩

/-- The text of a block with the line feeds at its end. -/
def Block.close (b : Block) (chomp : Chomp) : List Char :=
  let feed := if b.ended then ['\n'] else []
  match chomp with
  | .strip => b.text
  | .clip => b.text ++ feed
  | .keep => b.text ++ feed ++ lineFeeds b.empty

/-- Lines as a text again. -/
def joinLines (lines : List (List Char)) : List Char := ['\n'].intercalate lines

/-- **A block of lines**, kept or folded, below something that is indented by `indent`. -/
def blockScalar (indent : Int) : Parser Scalar := do
  let s ← get
  let folded := s.rest.head? == some '>'
  match Text.splitWhere (· == '\n') s.rest.tail with
  | [] => malformed
  | headLine :: lines =>
    match blockHead? headLine with
    | none => malformed
    | some head =>
      let indentation ← match head.indentation with
        | some n => pure (indent.toNat + n)
        | none => findIndentation (max 1 (indent + 1).toNat) lines
      let (block, rest) ← blockLines indentation lines
      let read := block.foldl (Block.add folded) ⟨[], false, 0, false⟩
      set (⟨joinLines rest, 0, true⟩ : Source)
      return ⟨false, String.ofList (read.close head.chomp)⟩

end StackMap.Yaml
