/-!
# `Text.Blank`: blanks, words and lines

Texts are handled as lists of characters. This module cuts them: at blanks into words, at line feeds
into lines, and it takes blanks off their ends.

## Contents

* `isBlank`: the white space of the Unicode standard.
* `splitWhere`: cutting a list at the elements that satisfy a test; `words` and `lines` are instances.
* `trim`: a text without the blanks at its two ends.
-/

namespace StackMap.Text

/-- **Blank characters**: those with the Unicode property `White_Space`. -/
def isBlank (c : Char) : Bool :=
  let n := c.toNat
  n == 0x20 || (0x9 ≤ n && n ≤ 0xD) || n == 0x85 || n == 0xA0 || n == 0x1680 ||
    (0x2000 ≤ n && n ≤ 0x200A) || n == 0x2028 || n == 0x2029 || n == 0x202F || n == 0x205F ||
    n == 0x3000

/-- **Cutting a list.** The elements that satisfy `p` separate the parts and belong to none, so that
there is one part more than there are separators. -/
def splitWhere {α : Type} (p : α → Bool) : List α → List (List α)
  | [] => [[]]
  | a :: rest =>
    if p a then [] :: splitWhere p rest
    else match splitWhere p rest with
      | [] => [[a]]
      | part :: parts => (a :: part) :: parts

/-- The lines of a text: line feeds separate them. -/
def lines (s : List Char) : List (List Char) := splitWhere (· == '\n') s

/-- The words of a text: its maximal runs of characters that are not blank. -/
def words (s : List Char) : List (List Char) := (splitWhere isBlank s).filter (!·.isEmpty)

/-- A text without the blanks at its start. -/
def trimStart (s : List Char) : List Char := s.dropWhile isBlank

/-- A text without the blanks at its end. -/
def trimEnd (s : List Char) : List Char := (s.reverse.dropWhile isBlank).reverse

/-- A text without the blanks at its two ends. -/
def trim (s : List Char) : List Char := trimEnd (trimStart s)

/-- The parts before and after the first element that satisfies `p`, if there is one. -/
def cutAt {α : Type} (p : α → Bool) : List α → Option (List α × List α)
  | [] => none
  | a :: rest => if p a then some ([], rest) else (cutAt p rest).map fun (l, r) => (a :: l, r)

end StackMap.Text
