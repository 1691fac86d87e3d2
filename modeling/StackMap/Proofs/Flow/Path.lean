import StackMap.Proofs.Flow.Solution

/-!
# `Proofs.Flow.Path`: the frames along a path

A path runs the instructions of a method one after the other, or leaves one by an exception, and carries
the frame that results. The frames of the method say no more than the frame of any path that ends there,
if the path finds operands of the same sizes: an entry of which nothing is known counts as one of size one,
so a store or a stack instruction that finds a `long` on the path and a lost entry in the frames does two
different things.

## Contents

* `Path`: paths, with the frames that they carry.
* `path_below_analyze`: the frames of a method are above those of its paths, where sizes agree.
* `WideJoin`, `wideJoin_path_not_below`: a join of values of both sizes, and a path whose frame is not below.
-/

namespace StackMap.Flow

/-- **A path of a method**: `Path g entry ran i f` starts at the first instruction with the frame `entry`
and is now before the instruction `i` with the frame `f`. It has run the instructions `ran`, the latest
first, on the frames beside them. -/
inductive Path (g : Graph) (entry : Frame) : List (Nat × Frame) → Nat → Frame → Prop where
  | start : Path g entry [] 0 entry
  | flow {ran : List (Nat × Frame)} {i j : Nat} {insn : Insn} {f after : Frame} :
      Path g entry ran i f → g.method.insns[i]? = some insn → f.execute insn = .ok after →
      .ok j ∈ g.targets i insn → Path g entry ((i, f) :: ran) j after
  | exception {ran : List (Nat × Frame)} {i : Nat} {handler : Handler} {f : Frame} :
      Path g entry ran i f → handler ∈ g.handlersAt i →
      Path g entry ran handler.index (handlerFrame f handler)

section

variable {g : Graph} {entry : Frame} {ran : List (Nat × Frame)} {i : Nat} {f : Frame}

theorem Path.peer (h : Path g entry ran i f) : entry.Peer f := by
  induction h with
  | start => exact Frame.Peer.refl entry
  | flow _ _ hexec _ ih => exact ih.trans (Frame.execute_eq_ok_iff.mp hexec).peer
  | exception _ _ ih => exact ih.trans (peer_handlerFrame _ _)

theorem Path.filled (h : Path g entry ran i f) (hentry : entry.Filled) : f.Filled := by
  induction h with
  | start => exact hentry
  | flow _ _ hexec _ ih => exact (Frame.execute_eq_ok_iff.mp hexec).filled ih
  | exception _ _ ih => exact filled_handlerFrame ih _

/-- The sizes of operands agree along a path: each instruction that was run finds operands of the same
sizes on the path as in the frames. -/
def SizesAgreeAlong (g : Graph) (frames : Nat → Option Frame) (ran : List (Nat × Frame)) : Prop :=
  ∀ k f, (k, f) ∈ ran → ∀ insn h, g.method.insns[k]? = some insn → frames k = some h →
    f.SizesAgree insn h

/-- **Every solution is above every path** along which the sizes agree. -/
theorem Solution.above_path {frames : Nat → Option Frame} (hsol : Solution g entry frames)
    (hentry : entry.Filled) (h : Path g entry ran i f) (hsizes : SizesAgreeAlong g frames ran) :
    ∃ above, frames i = some above ∧ f.Below above := by
  -- The induction is on the path; at each instruction the solution runs as well, with more to say.
  induction h with
  | start => exact hsol.start
  | @flow ran i j insn f after hpath hi hexec hj ih =>
    obtain ⟨above, habove, hbelow⟩ :=
      ih (fun k f hmem => hsizes k f (List.mem_cons_of_mem _ hmem))
    obtain ⟨insn', after', hi', hexec', htargets, -⟩ := hsol.insn i above habove
    cases hi.symm.trans hi'
    obtain ⟨after'', hexec'', hle⟩ := Frame.execute_mono hexec' hbelow
      (hsol.peer habove hpath.peer hbelow) (hpath.filled hentry)
      (hsizes i f List.mem_cons_self insn above hi habove)
    cases hexec.symm.trans hexec''
    obtain ⟨j', next, ht, hnext, hnextle⟩ := htargets _ hj
    cases ht
    exact ⟨next, hnext, hle.trans hnextle⟩
  | @exception ran i handler f hpath hhandler ih =>
    obtain ⟨above, habove, hbelow⟩ := ih hsizes
    obtain ⟨-, -, -, -, -, hhandlers⟩ := hsol.insn i above habove
    obtain ⟨next, hnext, hnextle⟩ := hhandlers handler hhandler
    exact ⟨next, hnext, (handlerFrame_below hbelow handler).trans hnextle⟩

/-- **The frames of a method are above those of its paths**, where the sizes agree. At the end of the path
there is a frame, its stack is as high as that of the path, and each of its slots is the one of the path
or says nothing. -/
theorem path_below_analyze {owner : String} {m : Method} {frames : Array (Option Frame)}
    (hcode : m.hasCode) (h : analyze owner m = .ok frames) (hg : Graph.ofMethod m = .ok g)
    (hentry : entryFrame owner m = .ok entry) (hpath : Path g entry ran i f)
    (hsizes : SizesAgreeAlong g (framesAt frames) ran) :
    ∃ above, frames[i]? = some (some above) ∧ above.stack.length = f.stack.length ∧
      f.Below above := by
  have hsol : Solution g entry (framesAt frames) := .of_analyze hcode h hg hentry
  obtain ⟨above, habove, hbelow⟩ := hsol.above_path (filled_entryFrame hentry) hpath hsizes
  exact ⟨above, framesAt_eq_some_iff.mp habove, hbelow.height.symm, hbelow⟩

end

/-- The instructions of a path through the handler of a method with a loop, back to the loop. -/
def countdownDetour : List (Nat × Frame) :=
  [(9, Countdown.frame Countdown.throwable []),
    (8, Countdown.frame .int [some Countdown.throwable]),
    (7, Countdown.frame .int [some Countdown.throwable]),
    (1, Countdown.frame .uninit [some .int]), (0, Countdown.entry)]

/-- The path comes back to the loop with a value that the frame there has lost. -/
theorem path_below_analyze_countdown :
    Path Countdown.graph Countdown.entry countdownDetour 2 (Countdown.frame Countdown.throwable []) ∧
      SizesAgreeAlong Countdown.graph (framesAt Countdown.frames) countdownDetour ∧
      ∃ above, Countdown.frames[2]? = some (some above) ∧
        above.stack.length = (Countdown.frame Countdown.throwable []).stack.length ∧
        (Countdown.frame Countdown.throwable []).Below above := by
  have h1 : Path Countdown.graph Countdown.entry _ 1 (Countdown.frame .uninit [some .int]) :=
    Path.start.flow rfl rfl (by decide)
  have h2 : Path Countdown.graph Countdown.entry _ 2 (Countdown.frame .int []) :=
    h1.flow rfl rfl (by decide)
  have hcaught : ⟨7, Countdown.throwable⟩ ∈ Countdown.graph.handlersAt 2 := by decide
  have h8 : Path Countdown.graph Countdown.entry _ 8
      (Countdown.frame .int [some Countdown.throwable]) :=
    (h2.exception hcaught).flow rfl rfl (by decide)
  have h9 : Path Countdown.graph Countdown.entry _ 9 (Countdown.frame Countdown.throwable []) :=
    h8.flow rfl rfl (by decide)
  have hpath : Path Countdown.graph Countdown.entry countdownDetour 2
      (Countdown.frame Countdown.throwable []) := h9.flow rfl rfl (by decide)
  have hsizes : SizesAgreeAlong Countdown.graph (framesAt Countdown.frames) countdownDetour := by
    intro k f hmem insn h _ hh
    have hstacks : ∀ p ∈ countdownDetour, ∀ h ∈ framesAt Countdown.frames p.1,
        p.2.stack = h.stack := by decide
    exact .of_stack_eq (hstacks (k, f) hmem h hh)
  exact ⟨hpath, hsizes, path_below_analyze rfl Countdown.analyze_eq Countdown.ofMethod_eq
    Countdown.entryFrame_eq hpath hsizes⟩

/-! ## A join of values of both sizes

The instruction that stores finds a `long` behind the instruction before, and an exception as a handler.
In the frames the entry is lost, so that the store leaves the second variable as it was. On the path the
`long` takes that variable too. -/

namespace WideJoin

def method : Method where
  access := 8
  name := "join"
  desc := "()V"
  maxStack := 0
  maxLocals := 2
  insns := #[.plain ⟨0x03⟩, .var .istore 1, .label ⟨"try", 0⟩, .plain ⟨0x09⟩, .label ⟨"caught", 0⟩,
    .var .astore 0, .plain ⟨0xb1⟩]
  tryCatch := [⟨⟨"try", 0⟩, ⟨"caught", 0⟩, ⟨"caught", 0⟩, ""⟩]

def graph : Graph := ⟨method, [⟨2, 4, ⟨4, .object "Ljava/lang/Throwable;"⟩⟩], []⟩

def frame (first second : Value) (stack : List Slot) : Frame :=
  ⟨#[some first, some second], stack, 0, none⟩

def entry : Frame := frame .uninit .uninit []

def frames : Array (Option Frame) :=
  #[some entry, some (frame .uninit .uninit [some .int]), some (frame .uninit .int []),
    some (frame .uninit .int []), some (frame .uninit .int [some .uninit]),
    some (frame .uninit .int [some .uninit]), some (frame .uninit .int [])]

theorem ofMethod_eq : Graph.ofMethod method = .ok graph := rfl

theorem entryFrame_eq : entryFrame "C" method = .ok entry :=
  eq_ok_of_toOption (by decide +kernel)

theorem analyze_eq : analyze "C" method = .ok frames :=
  analyze_of_replay 20 rfl ofMethod_eq entryFrame_eq (by decide +kernel)

end WideJoin

/-- **Without the sizes it fails**: a path on which the store takes both variables, and frames in which
the second one is still an `int`. -/
theorem wideJoin_path_not_below :
    WideJoin.method.hasCode ∧ analyze "C" WideJoin.method = .ok WideJoin.frames ∧
      Graph.ofMethod WideJoin.method = .ok WideJoin.graph ∧
      entryFrame "C" WideJoin.method = .ok WideJoin.entry ∧
      ∃ ran f above, Path WideJoin.graph WideJoin.entry ran 6 f ∧
        WideJoin.frames[6]? = some (some above) ∧ ¬ f.Below above := by
  have h0 : Path WideJoin.graph WideJoin.entry [] 0 WideJoin.entry := .start
  have h1 : Path WideJoin.graph WideJoin.entry _ 1 (WideJoin.frame .uninit .uninit [some .int]) :=
    h0.flow rfl rfl (by decide)
  have h2 : Path WideJoin.graph WideJoin.entry _ 2 (WideJoin.frame .uninit .int []) :=
    h1.flow rfl rfl (by decide)
  have h3 : Path WideJoin.graph WideJoin.entry _ 3 (WideJoin.frame .uninit .int []) :=
    h2.flow rfl rfl (by decide)
  have h4 : Path WideJoin.graph WideJoin.entry _ 4 (WideJoin.frame .uninit .int [some .long]) :=
    h3.flow rfl rfl (by decide)
  have h5 : Path WideJoin.graph WideJoin.entry _ 5 (WideJoin.frame .uninit .int [some .long]) :=
    h4.flow rfl rfl (by decide)
  have h6 : Path WideJoin.graph WideJoin.entry _ 6 (WideJoin.frame .long .uninit []) :=
    h5.flow rfl rfl (by decide)
  refine ⟨rfl, WideJoin.analyze_eq, WideJoin.ofMethod_eq, WideJoin.entryFrame_eq, _, _, _, h6, rfl, ?_⟩
  -- The second variable is lost on the path and an `int` in the frames.
  intro hbelow
  cases hbelow.locals with
  | cons _ hsecond =>
    cases hsecond with
    | cons hsecond _ => exact absurd hsecond (by simp [Slot.Below])

end StackMap.Flow
