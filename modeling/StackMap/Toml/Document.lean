import StackMap.Numeral.Integer
import StackMap.Text.Blank
import StackMap.Toml.Token

/-!
# `Toml.Document`: settings as keys and values

This is the part of TOML that settings need: keys, whole numbers, truth values, texts, lists of these,
and tables with a single name.

## Contents

* `Toml.Scalar`, `Toml.Value`: values.
* `Toml.Table`: a table; the one at the top has no name.
* `Toml.parse`: the tables of a text.
-/

namespace StackMap.Toml

/-- Values that are not lists. -/
inductive Scalar where
  | integer (n : Int)
  | boolean (b : Bool)
  | text (s : String)
  deriving Repr, DecidableEq

/-- **Values.** -/
inductive Value where
  | scalar (s : Scalar)
  | array (items : List Scalar)
  deriving Repr, DecidableEq

/-- **Tables.** -/
structure Table where
  name : String
  pairs : List (String × Value)
  deriving Repr, DecidableEq

/-- What is wrong with a text. -/
inductive Error where
  | malformed
  | duplicate (key : String)
  | mistyped (key : String)
  deriving Repr, DecidableEq

/-- The wording of an `Error`. -/
def Error.message : Error → String
  | .malformed => "toml: malformed text"
  | .duplicate key => "toml: key " ++ key ++ " is already defined"
  | .mistyped key => "toml: the value of " ++ key ++ " is of the wrong type"

/-! ## Numbers -/

/-- The value of digits in a base, between which single underscores may stand. -/
def digits? (base : Nat) (digits : List Char) : Option Nat :=
  if digits.isEmpty || !Numeral.separates (base == 16) .other digits then none
  else digits.foldlM (fun n c =>
    if c = '_' then some n
    else (Numeral.digitValue? c).bind fun d => if d < base then some (n * base + d) else none) 0

/-- A number in the range of 64 bits. -/
def inRange? (n : Int) : Option Int :=
  if -0x8000000000000000 ≤ n ∧ n < 0x8000000000000000 then some n else none

/-- A number in base ten, which has no leading zeros. -/
def decimal? : List Char → Option Nat
  | ['0'] => some 0
  | '0' :: _ => none
  | digits => digits? 10 digits

/-- **Whole numbers**: in base ten with or without a sign, or behind the mark of another base. -/
def integer? : List Char → Option Int
  | '0' :: 'x' :: digits => (digits? 16 digits).bind fun n => inRange? n
  | '0' :: 'o' :: digits => (digits? 8 digits).bind fun n => inRange? n
  | '0' :: 'b' :: digits => (digits? 2 digits).bind fun n => inRange? n
  | '-' :: digits => (decimal? digits).bind fun n => inRange? (-n)
  | '+' :: digits => (decimal? digits).bind fun n => inRange? n
  | digits => (decimal? digits).bind fun n => inRange? n

/-! ## Statements -/

/-- The value of a token. -/
def scalar? : Token → Option Scalar
  | .text s => some (.text s)
  | .word "true" => some (.boolean true)
  | .word "false" => some (.boolean false)
  | .word s => (integer? s.toList).map .integer
  | _ => none

/-- The items of a list behind its opening bracket. A comma may follow the last one. -/
def items? : List Token → Option (List Scalar)
  | [.closing] => some []
  | [t, .closing] => do return [← scalar? t]
  | t :: .comma :: rest => do return (← scalar? t) :: (← items? rest)
  | _ => none

/-- The value that tokens spell. Inside of a list lines may end anywhere. -/
def value? : List Token → Option Value
  | [t] => (scalar? t).map .scalar
  | .opening :: rest => (items? (rest.filter (· != .newline))).map .array
  | _ => none

/-- The key of a token: parts of letters, digits, `_` and `-` with points between them, or a text. -/
def key? : Token → Option String
  | .text s => some s
  | .word s =>
    let part (cs : List Char) : Bool :=
      !cs.isEmpty && cs.all fun c => c.isAlphanum || c = '_' || c = '-'
    if (Text.splitWhere (· == '.') s.toList).all part then some s else none
  | _ => none

/-- A line of a text. -/
inductive Statement where
  | pair (key : String) (v : Value)
  | header (name : String)

/-- The statement that tokens spell. -/
def statement? : List Token → Option Statement
  | [.opening, name, .closing] => (key? name).map .header
  | key :: .equals :: value => do return .pair (← key? key) (← value? value)
  | _ => none

/-- The tokens of each statement: a line ends it, unless a bracket is open. -/
def statementTokens (depth : Nat) : List Token → List (List Token)
  | [] => [[]]
  | t :: rest =>
    if t = .newline ∧ depth = 0 then [] :: statementTokens 0 rest
    else
      let depth := if t = .opening then depth + 1 else if t = .closing then depth - 1 else depth
      match statementTokens depth rest with
      | [] => [[t]]
      | first :: more => (t :: first) :: more

/-- A statement is added to the tables read so far, the last one first. -/
def addStatement (tables : List Table) : Statement → Except Error (List Table)
  | .header name =>
    let taken := tables.any fun t => t.name == name || (t.name == "" && t.pairs.any (·.1 == name))
    if taken then .error (.duplicate name) else .ok (⟨name, []⟩ :: tables)
  | .pair key v =>
    match tables with
    | [] => .ok [⟨"", [(key, v)]⟩]
    | t :: more =>
      if t.pairs.any (·.1 == key) then .error (.duplicate key)
      else .ok ({ t with pairs := t.pairs ++ [(key, v)] } :: more)

/-- **The tables of a text.** The first one has no name and holds the keys before the first header. -/
def parse (s : String) : Except Error (List Table) :=
  match tokens? s with
  | none => .error .malformed
  | some tokens =>
    match ((statementTokens 0 tokens).filter (!·.isEmpty)).mapM statement? with
    | none => .error .malformed
    | some statements => do return (← statements.foldlM addStatement [⟨"", []⟩]).reverse

end StackMap.Toml
