import StackMap.Yaml.Scalar

/-!
# `Yaml.Parse`: the tree that a text spells

This is the part of YAML that listings and suites need: mappings and lists, by indentation or in
brackets, and scalars. Only the first document of a text is read.

The two forms nest one way: brackets can stand inside of an indented part, and no indented part inside of
brackets. Each form has its own readers, which take fuel for as many steps as there are characters.

## Contents

* `Yaml.flowNode`: a node in brackets, or a scalar inside of them.
* `Yaml.blockNode`: a node by indentation.
* `Yaml.parse`: the node that a text spells.
-/

namespace StackMap.Yaml

/-! ## Brackets -/

/-- A scalar inside of brackets, and whether it stays in one line. -/
def flowScalar (indent : Int) : Parser (Scalar × Bool) := do
  let s ← get
  match s.rest with
  | '"' :: _ => quotedScalar '"'
  | '\'' :: _ => quotedScalar '\''
  | rest =>
    if startsPlain true rest && !s.atEnd then plainScalar true indent else malformed

/-- Whether the mark between a key and its value stands here, inside of brackets. -/
def atFlowColon : Parser Bool := return (← get).rest.head? == some ':'

/-- Whether one of the marks that end an item stands here. -/
def atItemEnd : Parser Bool := do
  match (← get).rest with
  | c :: _ => return c = ',' || c = ']' || c = '\x7d'
  | [] => return false

/-- The mark between two items is passed, unless the closing one stands here. -/
def passComma (closing : Char) : Parser Unit := do
  skip true
  if (← get).rest.head? ≠ some closing then pass ',' true

mutual
/-- **A node inside of brackets.** -/
def flowNode (indent : Int) : (fuel : Nat) → Parser Node
  | 0 => malformed
  | fuel + 1 => do
    match (← get).rest with
    | '[' :: _ =>
      pass '[' true
      return .list (← flowItems indent fuel)
    | '\x7b' :: _ =>
      pass '\x7b' true
      return .map (← flowEntries indent fuel)
    | _ => return .scalar (← flowScalar indent).1

/-- The value behind a colon, which may be left out. -/
def flowValue (indent : Int) : (fuel : Nat) → Parser Node
  | 0 => malformed
  | fuel + 1 => do
    pass ':' true
    skip true
    if ← atItemEnd then return .null else flowNode indent fuel

/-- The items of a list up to its closing bracket. An item with a colon is a mapping of one entry. -/
def flowItems (indent : Int) : (fuel : Nat) → Parser (List Node)
  | 0 => malformed
  | fuel + 1 => do
    skip true
    match (← get).rest with
    | [] => malformed
    | ']' :: _ =>
      pass ']' false
      return []
    | '[' :: _ | '\x7b' :: _ =>
      let item ← flowNode indent fuel
      passComma ']'
      return item :: (← flowItems indent fuel)
    | _ =>
      let (key, oneLine) ← flowScalar indent
      skip true
      let item ← if oneLine && (← atFlowColon) then
          pure (.map [(key, ← flowValue indent fuel)])
        else pure (.scalar key)
      passComma ']'
      return item :: (← flowItems indent fuel)

/-- The entries of a mapping up to its closing bracket. A value may be left out. -/
def flowEntries (indent : Int) : (fuel : Nat) → Parser (List (Scalar × Node))
  | 0 => malformed
  | fuel + 1 => do
    skip true
    match (← get).rest with
    | [] => malformed
    | '\x7d' :: _ =>
      pass '\x7d' false
      return []
    | _ =>
      let (key, oneLine) ← flowScalar indent
      skip true
      let value ← if oneLine && (← atFlowColon) then flowValue indent fuel else pure .null
      passComma '\x7d'
      return (key, value) :: (← flowEntries indent fuel)
end

/-! ## Indentation -/

/-- A scalar in quotes or a plain one, and whether it stays in one line. -/
def lineScalar (indent : Int) : Parser (Scalar × Bool) := do
  let s ← get
  match s.rest with
  | '"' :: _ => quotedScalar '"'
  | '\'' :: _ => quotedScalar '\''
  | rest => if startsPlain false rest then plainScalar false indent else malformed

/-- The key of a further entry, which has to stay in one line. -/
def entryKey (indent : Int) : Parser Scalar := do
  let (key, oneLine) ← lineScalar indent
  if oneLine && (← get).atColon then return key else malformed

mutual
/-- **A node by indentation**, below something that is indented by `indent`. With `itemsToo` a list may
begin at that column too. -/
def blockNode (indent : Int) (itemsToo : Bool) : (fuel : Nat) → Parser Node
  | 0 => malformed
  | fuel + 1 => do
    let s ← get
    let deeper := indent < s.column || (itemsToo && s.atItem && indent = s.column)
    if s.atEnd || !deeper then return .null
    if s.atItem then
      if s.keyAllowed then return .list (← blockItems s.column fuel) else malformed
    else match s.rest with
      | '|' :: _ | '>' :: _ => return .scalar (← blockScalar indent)
      | '[' :: _ | '\x7b' :: _ => flowNode (indent + 1) s.rest.length
      | _ =>
        let (scalar, oneLine) ← lineScalar (indent + 1)
        if oneLine && (← get).atColon then
          if s.keyAllowed then return .map (← blockEntries s.column scalar fuel) else malformed
        else return .scalar scalar

/-- The items of a list at a column. -/
def blockItems (column : Nat) : (fuel : Nat) → Parser (List Node)
  | 0 => malformed
  | fuel + 1 => do
    pass '-' true
    skip false
    let item ← blockNode column false fuel
    skip false
    let s ← get
    if !s.atEnd && s.column = column && s.atItem then return item :: (← blockItems column fuel)
    else return [item]

/-- The entries of a mapping at a column, the first of which has the given key. -/
def blockEntries (column : Nat) (key : Scalar) : (fuel : Nat) → Parser (List (Scalar × Node))
  | 0 => malformed
  | fuel + 1 => do
    pass ':' false
    skip false
    let value ← blockNode column true fuel
    skip false
    let s ← get
    if s.atEnd || s.column < column then return [(key, value)]
    else if column < s.column || s.atItem then malformed
    else
      let next ← entryKey (column + 1)
      return (key, value) :: (← blockEntries column next fuel)
end

/-! ## Documents -/

/-- Whether a character may stand in a text at all. -/
def isAllowed (c : Char) : Bool :=
  let n := c.toNat
  n = 0x9 || n = 0xA || n = 0xD || (0x20 ≤ n && n ≤ 0x7E) || n = 0x85 || (0xA0 ≤ n && n ≤ 0xFFFD && n ≠ 0xFEFF) ||
    0x10000 ≤ n

/-- A text in which every line ends with a line feed alone. -/
def normalizeLines : List Char → List Char
  | '\r' :: '\n' :: rest => '\n' :: normalizeLines rest
  | c :: rest => (if c = '\r' || c = '\u0085' then '\n' else c) :: normalizeLines rest
  | [] => []

/-- The mark of the start of a document is passed, if there is one. -/
def passDocumentStart : Parser Unit := do
  skip false
  let s ← get
  if s.rest.head? = some '-' ∧ isDocumentMark s.column s.rest then
    set (⟨s.rest.drop 3, 3, false⟩ : Source)
    skip false

/-- The node of a document, behind which nothing but its end may follow. -/
def document : Parser Node := do
  passDocumentStart
  let s ← get
  let node ← blockNode (-1) false (2 * s.rest.length + 4)
  skip false
  if (← get).atEnd then return node else malformed

/-- **The node that a text spells.** -/
def parse (text : List Char) : Except Error Node :=
  let text := match text with
    | '\uFEFF' :: rest => rest
    | _ => text
  if !text.all isAllowed then .error .malformed
  else (·.1) <$> document.run ⟨normalizeLines text, 0, true⟩

/-- The node that bytes spell, which have to be a text. -/
def parseBytes (data : List UInt8) : Except Error Node :=
  match Text.decode? data with
  | some text => parse text
  | none => .error .malformed

end StackMap.Yaml
