import StackMap.Flow.Graph
import StackMap.Flow.State
import StackMap.Frame.Execute

/-!
# `Flow.Analysis`: the frames of a method

The analysis starts with the frame that a call of the method gives and sends frames along the control
flow until none changes any more. It ends by itself: a visit takes a position off the queue, and only
progress in the sense of `Flow.State` puts one back. The frames before the instructions that control
can reach are the result.

## Contents

* `AnalysisError`: why a method is refused.
* `entryFrame`: the frame before the first instruction.
* `visit`, `run`: a visit to a position, and visits until none is due.
* `analyze`: the frames of a method.
-/

namespace StackMap

/-- **Why a method is refused**: before the first visit, or at an instruction. -/
inductive AnalysisError where
  | handlerLabel (l : Label)
  | descriptor (e : DescriptorError)
  | parameters (name desc : String) (maxLocals : Int)
  | insn (e : InsnError)
  deriving Repr

/-- The wording of an `AnalysisError`. -/
def AnalysisError.message : AnalysisError → String
  | .handlerLabel l => "try/catch block: " ++ (Cause.unknownLabel l).message
  | .descriptor e => e.message
  | .parameters name desc maxLocals =>
    "local variable index out of range: parameters of " ++ name ++ desc ++ " need more than " ++
      Numeral.toText maxLocals ++ " locals"
  | .insn e => e.message

/-- The kind of an `AnalysisError`. -/
def AnalysisError.kind : AnalysisError → ErrorKind
  | .handlerLabel _ => .unknownLabel
  | .descriptor _ => .badDescriptor
  | .parameters .. => .localOutOfRange
  | .insn e => e.cause.kind

namespace Flow

/-- The slots that a parameter takes. -/
def parameterSlots (t : Ty) : Except Fault (List Slot) := do
  let v ← Transfer.valueOf t
  return if t.slots = 2 then [v, some .uninit] else [v]

/-- **The frame before the first instruction**: the receiver, unless the method is static, then the
parameters, and nothing known of the other local variables. -/
def entryFrame (owner : String) (m : Method) : Except (Halt AnalysisError) Frame := do
  let t ← m.type.mapError (.failed ∘ .descriptor)
  let empty ← (Frame.make m.maxLocals m.maxStack).mapError .fault
  let arguments ← t.arguments.mapError (.fault ∘ .type)
  let parameters ← (arguments.mapM parameterSlots).mapError .fault
  let receiver := if m.isStatic then [] else [some (Value.ofClassName owner)]
  let used := receiver ++ parameters.flatten
  if empty.locals.size < used.length then .error (.failed (.parameters m.name m.desc m.maxLocals))
  else
    let returned ← t.result.mapError (.fault ∘ .type)
    let result ← (Transfer.valueOf returned).mapError .fault
    return { empty with
      locals := (used ++ List.replicate (empty.locals.size - used.length) (some Value.uninit)).toArray
      result }

/-- A frame goes to each of several targets in turn. -/
def deliverAll (f : Frame) : List (Except Label Nat) → State → Except (Halt Cause) State
  | [], s => .ok s
  | .error l :: _, _ => .error (.failed (.unknownLabel l))
  | .ok j :: rest, s =>
    match s.deliver j f with
    | .error halt => .error halt
    | .ok s' => deliverAll f rest s'

/-- The frame that a handler finds: the local variables as they are, and the exception alone on the
stack. -/
def handlerFrame (f : Frame) (h : Handler) : Frame := { f with stack := [some h.caught] }

/-- The frames that an exception carries go to each of several handlers in turn. -/
def deliverHandlers (f : Frame) : List Handler → State → Except (Halt Cause) State
  | [], s => .ok s
  | h :: rest, s =>
    match s.deliver h.index (handlerFrame f h) with
    | .error halt => .error halt
    | .ok s' => deliverHandlers f rest s'

/-- **A visit to a position**: its instruction runs on the frame before it, the resulting frame goes to
all targets, and then every handler that covers the instruction gets its frame. -/
def visit (g : Graph) (i : Nat) (insn : Insn) (before : Frame) (s : State) :
    Except (Halt Cause) State :=
  match before.execute insn with
  | .error halt => .error halt
  | .ok after =>
    match deliverAll after (g.targets i insn) s with
    | .error halt => .error halt
    | .ok s' => deliverHandlers before (g.handlersAt i) s'

/-- A halt at an instruction. -/
def haltAt (i : Nat) (insn : Insn) : Halt Cause → Halt AnalysisError
  | .failed cause => .failed (.insn ⟨insn, some i, cause⟩)
  | .fault f => .fault f

/-- The visit to a position that was queued: there are an instruction and a frame. -/
def visitQueued (g : Graph) (i : Nat) (s : State) : Except (Halt AnalysisError) State :=
  match g.method.insns[i]?, s.frames[i]?.join with
  | some insn, some before =>
    match visit g i insn before s with
    | .error halt => .error (haltAt i insn halt)
    | .ok s' => .ok s'
  | _, _ => .ok s

/-! ## The loop ends -/

theorem deliverAll_eq_or_progress {f : Frame} {ts : List (Except Label Nat)} {s s' : State}
    (h : deliverAll f ts s = .ok s') : s' = s ∨ State.Progress s s' := by
  induction ts generalizing s with
  | nil => simp only [deliverAll, Except.ok.injEq] at h; exact Or.inl h.symm
  | cons t ts ih =>
    cases t with
    | error l => simp [deliverAll] at h
    | ok j =>
      simp only [deliverAll] at h
      split at h
      · simp at h
      · rename_i mid hmid
        rcases State.deliver_eq_or_progress hmid with rfl | h1
        · exact ih h
        · rcases ih h with rfl | h2
          · exact Or.inr h1
          · exact Or.inr (h1.trans h2)

theorem deliverHandlers_eq_or_progress {f : Frame} {hs : List Handler} {s s' : State}
    (h : deliverHandlers f hs s = .ok s') : s' = s ∨ State.Progress s s' := by
  induction hs generalizing s with
  | nil => simp only [deliverHandlers, Except.ok.injEq] at h; exact Or.inl h.symm
  | cons handler hs ih =>
    simp only [deliverHandlers] at h
    split at h
    · simp at h
    · rename_i mid hmid
      rcases State.deliver_eq_or_progress hmid with rfl | h1
      · exact ih h
      · rcases ih h with rfl | h2
        · exact Or.inr h1
        · exact Or.inr (h1.trans h2)

theorem visit_eq_or_progress {g : Graph} {i : Nat} {insn : Insn} {before : Frame} {s s' : State}
    (h : visit g i insn before s = .ok s') : s' = s ∨ State.Progress s s' := by
  unfold visit at h
  split at h
  · simp at h
  split at h
  · simp at h
  rename_i mid hmid
  rcases deliverAll_eq_or_progress hmid with rfl | h1
  · exact deliverHandlers_eq_or_progress h
  · rcases deliverHandlers_eq_or_progress h with rfl | h2
    · exact Or.inr h1
    · exact Or.inr (h1.trans h2)

/-- **A visit leaves the state alone or makes progress.** -/
theorem visitQueued_eq_or_progress {g : Graph} {i : Nat} {s s' : State}
    (h : visitQueued g i s = .ok s') : s' = s ∨ State.Progress s s' := by
  unfold visitQueued at h
  split at h
  · split at h
    · simp at h
    · rename_i hv
      simp only [Except.ok.injEq] at h
      subst h
      exact visit_eq_or_progress hv
  · simp only [Except.ok.injEq] at h
    exact Or.inl h.symm

/-- **Visits until none is due.** -/
def run (g : Graph) (s : State) : Except (Halt AnalysisError) (Array (Option Frame)) :=
  match _hpop : s.queue.pop? with
  | none => .ok s.frames
  | some (i, queue) =>
    match _hvisit : visitQueued g i { s with queue } with
    | .error halt => .error halt
    | .ok s' => run g s'
termination_by (s.unset, s.known, s.queue.length)
decreasing_by
  have hlen := Worklist.length_pop? _hpop
  rcases visitQueued_eq_or_progress _hvisit with rfl | h
  · exact Prod.Lex.right _ (Prod.Lex.right _ (by simp only; omega))
  · rcases h with h | ⟨h1, h2⟩
    · exact Prod.Lex.left _ _ h
    · simp only [State.unset, State.known] at h1 h2 ⊢
      rw [h1]
      exact Prod.Lex.right _ (Prod.Lex.left _ _ h2)

end Flow

/-- **The frames of a method** that is declared in the class `owner`: one before each instruction that
control can reach. A method without code has none. -/
def analyze (owner : String) (m : Method) : Except (Halt AnalysisError) (Array (Option Frame)) :=
  if !m.hasCode then .ok #[]
  else do
    let g ← (Graph.ofMethod m).mapError (.failed ∘ .handlerLabel)
    let entry ← Flow.entryFrame owner m
    Flow.run g (State.start m.insns.size entry)

end StackMap
