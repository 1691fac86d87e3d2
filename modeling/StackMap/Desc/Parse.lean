import StackMap.Desc.Basic

/-!
# `Desc.Parse`: checked descriptors

**A descriptor** is `V`, or a field descriptor, or a method descriptor: `(`, any number of field
descriptors, `)`, and `V` or a field descriptor. A field descriptor has at most 255 dimensions. `parse`
accepts exactly these texts and says what is wrong with any other; of several flaws the leftmost counts.

## Contents

* `parse`: the type of a descriptor.
* `parseMethod`: the same, for method descriptors only.
-/

namespace StackMap.Desc

/-- The text behind a result descriptor: `V` or a field descriptor. -/
def skipResult (offset : Nat) : List Char → Except Flaw (List Char)
  | 'V' :: rest => .ok rest
  | s => skipField offset s

/-- The type of a text that is not empty. -/
def parseChars : List Char → Except Flaw Ty
  | '(' :: s => do
    let (_, rest) ← fieldTexts 1 s
    let rest' ← skipResult (1 + Text.size s - Text.size rest) rest
    if rest'.isEmpty then .ok (.method (String.ofList ('(' :: s)))
    else .error .trailingCharacters
  | ['V'] => .ok .void
  | s => do
    let rest ← skipField 0 s
    if rest.isEmpty then .ok (fieldType s)
    else .error .trailingCharacters

/-- **The type of a descriptor.** -/
def parse (text : String) : Except DescriptorError Ty :=
  if text.toList.isEmpty then .error .empty
  else match parseChars text.toList with
    | .ok t => .ok t
    | .error flaw => .error (.flawed text flaw)

/-- **The type of a method descriptor.** -/
def parseMethod (text : String) : Except DescriptorError Ty := do
  match ← parse text with
  | .method d => .ok (.method d)
  | _ => .error (.notMethod text)

end StackMap.Desc
