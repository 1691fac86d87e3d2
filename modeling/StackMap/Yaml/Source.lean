import StackMap.Yaml.Node

/-!
# `Yaml.Source`: a position in a text

## Contents

* `Yaml.Source`: what is left of a text, with the column.
* `Yaml.Parser`: readers of a text.
* `Yaml.skip`: the way to the next token.
-/

namespace StackMap.Yaml

/-- **A position in a text**: what follows, its column, and whether a key may begin here, as it may at the
start of a line and behind the mark of a list item. -/
structure Source where
  rest : List Char
  column : Nat
  keyAllowed : Bool

/-- **Readers** of a text. -/
abbrev Parser := StateT Source (Except Error)

/-- A text is refused. -/
def malformed {α : Type} : Parser α := throw .malformed

/-- Whether a character separates words in a line. -/
def isBlank (c : Char) : Bool := c = ' ' || c = '\t'

/-- Whether a character separates words or lines. -/
def isSpace (c : Char) : Bool := isBlank c || c = '\n'

/-- Whether a text is at an end, or goes on with a separator. -/
def atSpace : List Char → Bool
  | [] => true
  | c :: _ => isSpace c

/-- The column behind a character. -/
def columnAfter (c : Char) (column : Nat) : Nat := if c = '\n' then 0 else column + 1

/-- Whether a line that begins here marks the start or the end of a document. -/
def isDocumentMark (column : Nat) (rest : List Char) : Bool :=
  column = 0 &&
    match rest with
    | '-' :: '-' :: '-' :: more => atSpace more
    | '.' :: '.' :: '.' :: more => atSpace more
    | _ => false

namespace Source

/-- Whether nothing more belongs to the document. -/
def atEnd (s : Source) : Bool := s.rest.isEmpty || isDocumentMark s.column s.rest

/-- Whether the mark of a list item stands here. -/
def atItem (s : Source) : Bool :=
  match s.rest with
  | '-' :: more => atSpace more
  | _ => false

/-- Whether the mark between a key and its value stands here. -/
def atColon (s : Source) : Bool :=
  match s.rest with
  | ':' :: more => atSpace more
  | _ => false

/-- The position behind the next character, which does not end a line. -/
def advance (s : Source) (keyAllowed : Bool) : Source :=
  ⟨s.rest.tail, s.column + 1, keyAllowed⟩

end Source

/-- The position of the next token. A tab is a blank only where no key may begin, or inside of brackets,
where keys are not told by their columns. -/
def skipFrom (inFlow inComment : Bool) (keyAllowed : Bool) : (column : Nat) → List Char → Source
  | column, [] => ⟨[], column, keyAllowed⟩
  | column, c :: rest =>
    if c = '\n' then skipFrom inFlow false (!inFlow || keyAllowed) 0 rest
    else if inComment || c = ' ' || (c = '\t' && (inFlow || !keyAllowed)) then
      skipFrom inFlow inComment keyAllowed (column + 1) rest
    else if c = '#' then skipFrom inFlow true keyAllowed (column + 1) rest
    else ⟨c :: rest, column, keyAllowed⟩

/-- **The way to the next token**, over blanks, comments and ends of lines. -/
def skip (inFlow : Bool) : Parser Unit :=
  modify fun s => skipFrom inFlow false s.keyAllowed s.column s.rest

/-- The next character, which has to be the given one, is passed. -/
def pass (c : Char) (keyAllowed : Bool) : Parser Unit := do
  let s ← get
  if s.rest.head? = some c then set (s.advance keyAllowed) else malformed

end StackMap.Yaml
