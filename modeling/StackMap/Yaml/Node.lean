import StackMap.Text.Utf8

/-!
# `Yaml.Node`: documents as trees

## Contents

* `Yaml.Scalar`, `Yaml.Node`: the trees.
* `Yaml.Error`: what is wrong with a text or with the tree that it spells.
-/

namespace StackMap.Yaml

/-- **Scalars.** One that is plain, without quotes and block marks, may stand for a number, a truth value
or nothing. -/
structure Scalar where
  plain : Bool
  text : String
  deriving Repr, DecidableEq

/-- **Nodes.** Keys are scalars. -/
inductive Node where
  | scalar (s : Scalar)
  | list (items : List Node)
  | map (entries : List (Scalar × Node))
  deriving Repr

/-- The node that nothing spells. -/
def Node.null : Node := .scalar ⟨true, ""⟩

/-- What is wrong with a text. -/
inductive Error where
  | malformed
  | duplicate (key : String)
  | mistyped
  deriving Repr, DecidableEq

/-- The wording of an `Error`. -/
def Error.message : Error → String
  | .malformed => "yaml: malformed text"
  | .duplicate key => "yaml: mapping key " ++ key ++ " already defined"
  | .mistyped => "yaml: a value is of the wrong type"

end StackMap.Yaml
