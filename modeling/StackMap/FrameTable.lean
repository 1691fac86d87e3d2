import StackMap.Flow.Analysis

/-!
# `FrameTable`: the frames of one method, and how they are shown

## Contents

* `FrameTable`: a method with the frames before its instructions.
* `FrameTable.reachable`, `stackAt`, `localsAt`: what is known before an instruction.
* `FrameTable.lines`: the report on a method, a heading and a line for each instruction.
* `FrameTable.ofMethod`: the table that the analysis gives.
-/

namespace StackMap

/-- **The frames before the instructions of a method** of the class `owner`. An instruction that control
cannot reach has none. -/
structure FrameTable where
  owner : String
  method : Method
  frames : Array (Option Frame)
  deriving Repr

/-- How slots are written: references all alike, or by their descriptors. -/
inductive SlotStyle where
  | short
  | descriptors
  deriving Repr, DecidableEq

/-- A slot in one of the two styles. -/
def SlotStyle.write : SlotStyle → Slot → String
  | .short, v => v.text
  | .descriptors, v => v.descriptor

/-- The name of a method with its class and descriptor. -/
def Method.fullName (owner : String) (m : Method) : String := owner ++ "." ++ m.name ++ m.desc

namespace FrameTable

/-- The table of a method by the analysis. -/
def ofMethod (owner : String) (m : Method) : Except (Halt AnalysisError) FrameTable :=
  (analyze owner m).map fun frames => ⟨owner, m, frames⟩

/-- The frame before an instruction. -/
def frameAt (t : FrameTable) (i : Nat) : Option Frame := t.frames[i]?.join

/-- Whether control can reach an instruction. -/
def reachable (t : FrameTable) (i : Nat) : Bool := (t.frameAt i).isSome

/-- The stack before an instruction, from the bottom. -/
def stackAt (t : FrameTable) (i : Nat) : List Slot :=
  match t.frameAt i with
  | some f => f.stack.reverse
  | none => []

/-- The local variables before an instruction. -/
def localsAt (t : FrameTable) (i : Nat) : List Slot :=
  match t.frameAt i with
  | some f => f.locals.toList
  | none => []

/-- Slots between brackets. -/
def bracketed (style : SlotStyle) (slots : List Slot) : String :=
  "[" ++ " ".intercalate (slots.map style.write) ++ "]"

/-- The frame before an instruction in a report. -/
def frameText (style : SlotStyle) (t : FrameTable) (i : Nat) : String :=
  if t.reachable i then bracketed style (t.localsAt i) ++ " " ++ bracketed style (t.stackAt i)
  else "unreachable"

/-- A text that fills a column of the given width, if it is not longer. -/
def padRight (width : Nat) (s : String) : String :=
  s ++ String.ofList (List.replicate (width - s.length) ' ')

/-- **The report on a method**: a heading, then for each instruction its number, the frame before it and
its text. -/
def lines (style : SlotStyle) (t : FrameTable) : List String :=
  t.method.fullName t.owner ::
    t.method.insns.toList.zipIdx.map fun (insn, i) =>
      Method.column i ++ " " ++ padRight 40 (frameText style t i) ++ " " ++ insn.text

/-- Lines as a text in which each one is ended. -/
def unlines (ls : List String) : String := String.join (ls.map (· ++ "\n"))

end FrameTable

end StackMap
