import StackMap.Text.Utf8

/-!
# `Pattern`: patterns for names

A pattern describes names whose parts are separated by slashes. `?` stands for any character but a
slash, `*` for any run of them, `[a-z]` for a character of a class, `[^a-z]` for one outside of it, and a
backslash takes the meaning off the character behind it.

A pattern is cut into chunks at its stars. Each chunk takes the first place where it fits, and only the
last one has to reach the end of the name. Places are counted in bytes, so that a star may end inside of
an encoded character; what follows there is read as one stray character for each byte.

## Contents

* `Pattern.Element`, `Pattern.Chunk`: the parts of a pattern.
* `Pattern.parse?`: the chunks of a pattern, unless it is malformed.
* `Pattern.matchesName`: whether a name fits.
-/

namespace StackMap.Pattern

/-- What stands for one character. -/
inductive Element where
  | literal (c : Char)
  | anyChar
  | oneOf (negated : Bool) (ranges : List (Char × Char))
  deriving Repr, DecidableEq

/-- Elements that follow each other, behind a star or not. -/
structure Chunk where
  star : Bool
  elements : List Element
  deriving Repr, DecidableEq

/-! ## Reading a pattern -/

/-- What has been read of the next range of a class: nothing, its lower end, or its lower end and the
dash. -/
inductive Pending where
  | nothing
  | lower (c : Char)
  | upTo (c : Char)
  deriving Repr, DecidableEq

/-- The ranges of a class so far, with the pending one if it is complete. -/
def Pending.close : Pending → List (Char × Char) → Option (List (Char × Char))
  | .nothing, [] => none
  | .nothing, ranges => some ranges
  | .lower c, ranges => some ((c, c) :: ranges)
  | .upTo _, _ => none

/-- The ranges of a class and the pending one after a further character. -/
def Pending.add (c : Char) : Pending → List (Char × Char) → Pending × List (Char × Char)
  | .nothing, ranges => (.lower c, ranges)
  | .lower a, ranges => (.lower c, (a, a) :: ranges)
  | .upTo a, ranges => (.nothing, (a, c) :: ranges)

/-- Where in a pattern a position is: outside of classes, or in a class with the ranges so far. -/
inductive Place where
  | outside
  | inside (negated : Bool) (ranges : List (Char × Char)) (pending : Pending)

/-- The place behind a further character of a class. -/
def insideAfter (c : Char) (negated : Bool) (ranges : List (Char × Char)) (pending : Pending) : Place :=
  let (pending, ranges) := pending.add c ranges
  .inside negated ranges pending

/-- The elements of a pattern, with `none` for each star. -/
def scan : Place → List Char → Option (List (Option Element))
  | .outside, [] => some []
  | .inside .., [] => none
  | .outside, '\\' :: c :: rest => (scan .outside rest).map (some (.literal c) :: ·)
  | .outside, '[' :: '^' :: rest => scan (.inside true [] .nothing) rest
  | .outside, c :: rest =>
    if c = '\\' then none
    else if c = '[' then scan (.inside false [] .nothing) rest
    else if c = '*' then (scan .outside rest).map (none :: ·)
    else if c = '?' then (scan .outside rest).map (some .anyChar :: ·)
    else (scan .outside rest).map (some (.literal c) :: ·)
  | .inside negated ranges pending, '\\' :: c :: rest =>
    scan (insideAfter c negated ranges pending) rest
  | .inside negated ranges pending, c :: rest =>
    if c = '\\' then none
    else if c = ']' then do
      let ranges ← pending.close ranges
      let elements ← scan .outside rest
      return some (.oneOf negated ranges) :: elements
    else if c = '-' then
      match pending with
      | .lower a => scan (.inside negated ranges (.upTo a)) rest
      | _ => none
    else scan (insideAfter c negated ranges pending) rest

/-- Elements cut at the stars. -/
def chunks : List (Option Element) → List Chunk
  | [] => []
  | some e :: rest =>
    match chunks rest with
    | ⟨false, elements⟩ :: more => ⟨false, e :: elements⟩ :: more
    | more => ⟨false, [e]⟩ :: more
  | none :: rest =>
    match chunks rest with
    | ⟨false, elements⟩ :: more => ⟨true, elements⟩ :: more
    | ⟨true, elements⟩ :: more => ⟨true, elements⟩ :: more
    | [] => [⟨true, []⟩]

/-- **The chunks of a pattern**, unless it is malformed. -/
def parse? (pattern : String) : Option (List Chunk) := (scan .outside pattern.toList).map chunks

/-! ## Matching a name -/

/-- The slash as a byte. -/
def slash : UInt8 := 47

/-- The first character of a byte string that is not empty, and what follows it. -/
def firstChar (b : UInt8) (rest : List UInt8) : Char × List UInt8 :=
  match Text.decodeFirst? b rest with
  | some (c, n) => (c, rest.drop n)
  | none => ('\uFFFD', rest)

/-- What follows a given start of a list. -/
def afterStart? : List UInt8 → List UInt8 → Option (List UInt8)
  | [], name => some name
  | _ :: _, [] => none
  | a :: start, b :: name => if a = b then afterStart? start name else none

/-- What follows an element at the start of a name, if it fits there. -/
def Element.matchStart? : Element → List UInt8 → Option (List UInt8)
  | .literal c, name => afterStart? (String.utf8EncodeChar c) name
  | .anyChar, b :: rest => if b = slash then none else some (firstChar b rest).2
  | .oneOf negated ranges, b :: rest =>
    let (c, rest) := firstChar b rest
    if (ranges.any fun (lo, hi) => lo ≤ c && c ≤ hi) = negated then none else some rest
  | .anyChar, [] => none
  | .oneOf .., [] => none

/-- What follows several elements at the start of a name, if they fit there. -/
def matchAll? (elements : List Element) (name : List UInt8) : Option (List UInt8) :=
  elements.foldlM (fun name e => e.matchStart? name) name

/-- The places that a star can lead to: every start up to the first slash. -/
def starPlaces : List UInt8 → List (List UInt8)
  | [] => [[]]
  | b :: rest => (b :: rest) :: if b = slash then [] else starPlaces rest

/-- Whether chunks fit a name one after the other. -/
def matchChunks : List Chunk → List UInt8 → Bool
  | [], name => name.isEmpty
  | chunk :: more, name =>
    let places := if chunk.star then starPlaces name else [name]
    let fits place := (matchAll? chunk.elements place).filter fun rest => rest.isEmpty || !more.isEmpty
    match places.findSome? fits with
    | some rest => matchChunks more rest
    | none => false

/-- **Whether a name fits a pattern.** A malformed pattern fits none. -/
def matchesName (pattern name : String) : Bool :=
  match parse? pattern with
  | some chunks => matchChunks chunks (Text.encode name.toList)
  | none => false

end StackMap.Pattern
