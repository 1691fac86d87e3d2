import StackMap.Assembly.Operand
import StackMap.Code.Insn

/-!
# `Assembly.Assemble`: from text to instructions

Assembly has one instruction on a line: a mnemonic in any case, and operands. A line that ends in `:`
defines a label, and `#` starts a comment. Short forms are accepted and stand for the general ones.

## Contents

* `stripComment`: a line without its comment.
* `instruction`: the instruction of a line.
* `assemble`: the instructions of a text; every label that is used has to be defined, once.
-/

namespace StackMap.Assembly

/-- Where a scan of a line for a comment stands. -/
inductive ScanMode where
  | plain
  | quoted
  | escaped
  deriving DecidableEq

/-- A line from the given mode on, without its comment. A `#` inside a string is no comment. -/
def stripFrom : ScanMode → List Char → List Char
  | _, [] => []
  | .escaped, c :: s => c :: stripFrom .quoted s
  | .quoted, c :: s =>
    c :: stripFrom (if c = '\\' then .escaped else if c = '"' then .plain else .quoted) s
  | .plain, c :: s =>
    if c = '#' then [] else c :: stripFrom (if c = '"' then .quoted else .plain) s

/-- **A line without its comment.** -/
def stripComment (s : List Char) : List Char := stripFrom .plain s

/-- Whether a character separates the mnemonic from the operands. -/
def isGap (c : Char) : Bool := c == ' ' || c == '\t'

/-- The mnemonic of a line, and the text of the operands. -/
def splitMnemonic (s : List Char) : List Char × List Char :=
  (s.takeWhile (!isGap ·), Text.trim (s.dropWhile (!isGap ·)))

/-- The label of a name. -/
def labelOf (s : List Char) : Label := { name := str s }

/-- The instruction takes a number of operands that the line does not have. -/
def wrongCount {α : Type} (op : Opcode) (want : Nat) (args : List (List Char)) :
    Except OperandFlaw α :=
  .error (.count op want args.length)

/-- The case `key:label` of a switch. -/
def switchCase (s : List Char) : Except OperandFlaw (Int32 × Label) :=
  match Text.cutAt (· == ':') s with
  | none => .error (.lookupSwitchCase (str s))
  | some (key, label) => do return (Int32.ofInt (← integer 32 key), labelOf label)

/-- The table of a switch: its least key, its default target and its targets in order. -/
def tableSwitch : List (List Char) → Except OperandFlaw Insn
  | least :: dflt :: first :: rest => do
    let low ← integer 32 least
    let labels := (first :: rest).map labelOf
    let high := low + labels.length - 1
    if 0x80000000 ≤ high then .error .tableSwitchRange
    else .ok (.tableSwitch (Int32.ofInt low) (Int32.ofInt high) (labelOf dflt) labels)
  | _ => .error .tableSwitchOperands

/-- The default target of a switch and its cases. -/
def lookupSwitch : List (List Char) → Except OperandFlaw Insn
  | dflt :: cases => do
    let cases ← cases.mapM switchCase
    .ok (.lookupSwitch (labelOf dflt) (cases.map (·.1)) (cases.map (·.2)))
  | [] => .error .lookupSwitchOperands

/-- An invocation: owner, name, descriptor, and `itf` if the owner is an interface. -/
def invocation (op : Opcode) (args : List (List Char)) : Except OperandFlaw Insn :=
  match args with
  | [owner, name, desc] =>
    .ok (.method op (str owner) (str name) (str desc) (op == .invokeinterface))
  | [owner, name, desc, mark] =>
    if str mark = "itf" then .ok (.method op (str owner) (str name) (str desc) true)
    else wrongCount op 3 args
  | _ => wrongCount op 3 args

/-- The instruction of an operation code in general form with its operands, given as words and as the
text that they come from. -/
def general (op : Opcode) (operands : List Char) (args : List (List Char)) :
    Except OperandFlaw Insn :=
  if op = .bipush ∨ op = .sipush then
    match args with
    | [value] => do return .int op (← integer (if op = .bipush then 8 else 16) value)
    | _ => wrongCount op 1 args
  else if op = .newarray then
    match args with
    | [tag] => do return .int op (← arrayTag tag)
    | _ => wrongCount op 1 args
  else if op = .ldc then do
    return .ldc (some (← constant operands))
  else if op.isLoad ∨ op.isStore ∨ op = .ret then
    match args with
    | [index] => do return .var op (← localVariable index)
    | _ => wrongCount op 1 args
  else if op = .iinc then
    match args with
    | [index, amount] => do
      let index ← localVariable index
      return .iinc index (← integer 16 amount)
    | _ => wrongCount op 2 args
  else if op.isJump then
    match args with
    | [target] => .ok (.jump op (labelOf target))
    | _ => wrongCount op 1 args
  else if op = .tableswitch then tableSwitch args
  else if op = .lookupswitch then lookupSwitch args
  else if op.isFieldAccess then
    match args with
    | [owner, name, desc] => .ok (.field op (str owner) (str name) (str desc))
    | _ => wrongCount op 3 args
  else if op.isMethodCall then invocation op args
  else if op = .invokedynamic then
    match args with
    | [name, desc] => .ok (.dynamic (str name) (str desc) none [])
    | _ => wrongCount op 2 args
  else if op = .new ∨ op = .anewarray ∨ op = .checkcast ∨ op = .instanceof then
    match args with
    | [name] => .ok (.type op (str name))
    | _ => wrongCount op 1 args
  else if op = .multianewarray then
    match args with
    | [desc, count] => do return .multiArray (str desc) (← dimensionCount count)
    | _ => wrongCount op 2 args
  else
    match args with
    | [] => .ok (.plain op)
    | _ => wrongCount op 0 args

/-- **The instruction of a line** that is not blank and defines no label. -/
def instruction (line : List Char) : Except LineError Insn :=
  let (mnemonic, operands) := splitMnemonic line
  let args := Text.words operands
  match Opcode.ofMnemonic? (str (Text.lower mnemonic)) with
  | none => .error (.unknownOpcode (str mnemonic))
  | some op =>
    if op = .wide then .error (.unknownOpcode (str mnemonic))
    else match op.normalize with
      | (op, some index) =>
        if args.isEmpty then .ok (.var op index) else .error (.operand (.takesNone (str mnemonic)))
      | (op, none) => (general op operands args).mapError .operand

/-- The name of the label that a line defines. -/
def definedLabel? (line : List Char) : Option (List Char) :=
  if endsWith ':' line && !line.any isGap then some line.dropLast else none

/-- An instruction with the number of its line. -/
structure Numbered where
  line : Nat
  insn : Insn

/-- The instructions of the lines from the given number on, when the labels `defined` stand before. -/
def assembleLines (number : Nat) (defined : List (List Char)) :
    List (List Char) → Except AssemblyError (List Numbered)
  | [] => .ok []
  | raw :: rest =>
    let line := Text.trim (stripComment raw)
    if line.isEmpty then assembleLines (number + 1) defined rest
    else match definedLabel? line with
      | some name =>
        if name ∈ defined then .error ⟨number, .duplicateLabel (str name)⟩
        else do
          return ⟨number, .label (labelOf name)⟩ ::
            (← assembleLines (number + 1) (name :: defined) rest)
      | none =>
        match instruction line with
        | .error e => .error ⟨number, e⟩
        | .ok insn => do return ⟨number, insn⟩ :: (← assembleLines (number + 1) defined rest)

/-- The labels that instructions define. -/
def definedLabels (insns : List Insn) : List Label :=
  insns.filterMap fun
    | .label l => some l
    | _ => none

/-- The first use of a label that is not defined. -/
def undefinedUse? (numbered : List Numbered) : Option (Nat × Label) :=
  let defined := definedLabels (numbered.map (·.insn))
  numbered.findSome? fun n =>
    (n.insn.references.find? (! defined.contains ·)).map (n.line, ·)

/-- **The instructions of a text.** -/
def assemble (text : String) : Except AssemblyError (List Insn) := do
  let numbered ← assembleLines 1 [] (Text.lines text.toList)
  match undefinedUse? numbered with
  | some (line, l) => .error ⟨line, .undefinedLabel l.name⟩
  | none => .ok (numbered.map (·.insn))

end StackMap.Assembly
