import StackMap.FrameTable
import StackMap.Listing.Basic

/-!
# `Conformance.Basic`: what the analysis is expected to say

A case states a method and either the frames that are expected before some of its instructions or the
error with which the analysis is expected to fail.

## Contents

* `Expectation`, `Case`, `Suite`: what is expected.
* `Discrepancy`: how the analysis can differ from it.
* `Case.run`: the verdict on a case.
* `Tally`: how many cases passed, failed and were skipped.
-/

namespace StackMap.Conformance

/-- **What is expected before an instruction**, which is given by its number or by a label. Values are
written as descriptors. -/
structure Expectation where
  position : String
  stack : Option (List String)
  locals : Option (List String)
  unreachable : Bool
  deriving Repr, DecidableEq

/-- **Cases.** One with a reason in `skip` is not run. With the name of a kind in `error` the analysis has
to fail, and with a position in `errorAt` it has to fail there. -/
structure Case where
  name : String
  skip : String
  method : MethodListing
  expect : List Expectation
  error : String
  errorAt : String
  deriving Repr, DecidableEq

/-- Cases under a common name. -/
structure Suite where
  name : String
  cases : List Case
  deriving Repr, DecidableEq

/-- **How the analysis differs** from what is expected. -/
inductive Discrepancy where
  | assembly (e : ListingError)
  | failed (e : AnalysisError)
  | unknownKind (name : String)
  | succeeded (expected : String)
  | otherKind (expected : String) (e : AnalysisError)
  | noInstruction (i : Int)
  | noLabel (name : String)
  | unlocated (position : String) (e : AnalysisError)
  | elsewhere (index : Nat) (e : AnalysisError)
  | reachable (position : String)
  | unreachable (position : String)
  | stack (position : String) (found expected : List String)
  | locals (position : String) (found expected : List String)
  deriving Repr

/-- Descriptors in brackets. -/
def bracketed (descriptors : List String) : String := "[" ++ " ".intercalate descriptors ++ "]"

/-- The wording of a `Discrepancy`. -/
def Discrepancy.message : Discrepancy → String
  | .assembly e => "assembling method: " ++ e.message
  | .failed e => "unexpected analysis failure: " ++ e.message
  | .unknownKind name =>
    "unknown error name " ++ Text.quote name ++ ", expected one of " ++
      ", ".intercalate (ErrorKind.all.map ErrorKind.name)
  | .succeeded expected => "expected " ++ expected ++ ", analysis succeeded"
  | .otherKind expected e => "expected " ++ expected ++ ", got: " ++ e.message
  | .noInstruction i => "instruction " ++ Numeral.toText i ++ " out of range"
  | .noLabel name => "no label " ++ Text.quote name
  | .unlocated position e =>
    "expected failure at " ++ position ++ ", got unlocated error: " ++ e.message
  | .elsewhere index e => "expected failure at " ++ Numeral.toText index ++ ", got: " ++ e.message
  | .reachable position => "at " ++ position ++ ": expected unreachable instruction"
  | .unreachable position => "at " ++ position ++ ": instruction is unreachable"
  | .stack position found expected =>
    "at " ++ position ++ ": stack is " ++ bracketed found ++ ", expected " ++ bracketed expected
  | .locals position found expected =>
    "at " ++ position ++ ": locals are " ++ bracketed found ++ ", expected " ++ bracketed expected

/-- The verdict on a case. -/
inductive Verdict where
  | passed
  | skipped (reason : String)
  | failed (d : Discrepancy)
  deriving Repr

/-- **The instruction at a position**: a number that is in range, or the first label with a name. -/
def indexOf (m : Method) (position : String) : Except Discrepancy Nat :=
  match Numeral.readDecimal? position.toList with
  | some i => if 0 ≤ i ∧ i < m.insns.size then .ok i.toNat else .error (.noInstruction i)
  | none =>
    let named : Insn → Bool
      | .label l => l.name == position
      | _ => false
    match m.insns.findIdx? named with
    | some i => .ok i
    | none => .error (.noLabel position)

/-- The check that slots are as expected, if anything is. -/
def checkSlots (found : List Slot) (differ : List String → List String → Discrepancy) :
    Option (List String) → Except Discrepancy Unit
  | none => .ok ()
  | some expected =>
    let found := found.map Slot.descriptor
    if found = expected then .ok () else .error (differ found expected)

/-- **The check of one expectation.** -/
def Expectation.check (e : Expectation) (t : FrameTable) : Except Discrepancy Unit := do
  let i ← indexOf t.method e.position
  if e.unreachable then
    if t.reachable i then throw (.reachable e.position)
  else if !t.reachable i then throw (.unreachable e.position)
  else
    checkSlots (t.stackAt i) (.stack e.position) e.stack
    checkSlots (t.localsAt i) (.locals e.position) e.locals

/-- The check that an error is at the expected position. -/
def checkPosition (m : Method) (position : String) (e : AnalysisError) : Except Discrepancy Unit := do
  let i ← indexOf m position
  match e with
  | .insn e' => if e'.index ≠ some i then throw (.elsewhere i e)
  | _ => throw (.unlocated position e)

/-- **The check that the analysis fails as expected.** -/
def checkError (c : Case) (m : Method) (e? : Option AnalysisError) : Except Discrepancy Unit :=
  match ErrorKind.ofName? c.error, e? with
  | none, _ => .error (.unknownKind c.error)
  | some _, none => .error (.succeeded c.error)
  | some kind, some e =>
    if e.kind ≠ kind then .error (.otherKind c.error e)
    else if c.errorAt.isEmpty then .ok ()
    else checkPosition m c.errorAt e

/-- The class of methods that name none. -/
def defaultOwner : String := "Test"

/-- What a case expects, checked against what the analysis says. A fault decides nothing. -/
def Case.check (c : Case) (m : Method) :
    Except (Halt AnalysisError) FrameTable → Except Fault (Except Discrepancy Unit)
  | .error (.fault f) => .error f
  | .error (.failed e) =>
    .ok (if c.error.isEmpty then .error (.failed e) else checkError c m (some e))
  | .ok t => .ok (if c.error.isEmpty then c.expect.forM (·.check t) else checkError c m none)

/-- **The verdict on a case.** -/
def Case.run (c : Case) : Except Fault Verdict :=
  if !c.skip.isEmpty then .ok (.skipped c.skip)
  else
    let owner := if c.method.owner.isEmpty then defaultOwner else c.method.owner
    match c.method.method with
    | .error e => .ok (.failed (.assembly e))
    | .ok m => do
      match ← c.check m (FrameTable.ofMethod owner m) with
      | .ok () => return .passed
      | .error d => return .failed d

/-- **How many cases** there were, and what became of them. -/
structure Tally where
  passed : Nat
  failed : Nat
  skipped : Nat
  deriving Repr, DecidableEq

/-- The tally with a further verdict. -/
def Tally.add (t : Tally) : Verdict → Tally
  | .passed => { t with passed := t.passed + 1 }
  | .failed _ => { t with failed := t.failed + 1 }
  | .skipped _ => { t with skipped := t.skipped + 1 }

/-- The tally of several verdicts. -/
def Tally.ofVerdicts (vs : List Verdict) : Tally := vs.foldl Tally.add ⟨0, 0, 0⟩

/-- A tally in a line. -/
def Tally.text (t : Tally) : String :=
  "total: " ++ Numeral.toText (t.passed + t.failed + t.skipped) ++ ", passed: " ++
    Numeral.toText t.passed ++ ", failed: " ++ Numeral.toText t.failed ++ ", skipped: " ++
    Numeral.toText t.skipped

end StackMap.Conformance
