import StackMap.Proofs.Worklist

/-!
# `Proofs.Worklist.History`: what happens to a worklist

A worklist is used by pushes and pops in any order. Through its list view it answers as a plain queue that refuses
what waits already: the same pushes are accepted, the same elements leave, and both have something to pop at the
same moments. What becomes of an element is then a fact about the plain queue. The elements that leave are those
of the first accepted pushes, in their order and each after its push, and the others wait.

## Contents

* `Op`, `Event`, `runBy`: operations, their answers, and histories.
* `step?`, `queueStep?`: one operation on a worklist and on a plain queue.
* `map_step?`, `map_runBy`: the worklist answers as the queue.
* `InTurn`, `inTurn_of_runBy`: elements leave the queue in turn.
* `runs_as_queue`: what holds of every history of a worklist.
-/

namespace StackMap.Worklist

variable {α : Type}

/-! ## Histories -/

/-- **Operations.** -/
inductive Op (α : Type) where
  | push (a : α)
  | pop
  deriving Repr, DecidableEq

/-- **Answers**: whether an element that is pushed is accepted, and which element is popped. -/
inductive Event (α : Type) where
  | pushed (a : α) (accepted : Bool)
  | popped (a : α)
  deriving Repr, DecidableEq

/-- **One operation on a worklist.** Nothing is popped where nothing waits. -/
def step? [BEq α] [Hashable α] (w : Worklist α) : Op α → Option (Event α × Worklist α)
  | .push a => some (.pushed a (w.adds a), w.push a)
  | .pop => w.pop?.map fun (a, w') => (.popped a, w')

/-- **One operation on a plain queue** that refuses the elements that it has. -/
def queueStep? [BEq α] [LawfulBEq α] (q : List α) : Op α → Option (Event α × List α)
  | .push a => if a ∈ q then some (.pushed a false, q) else some (.pushed a true, q ++ [a])
  | .pop =>
    match q with
    | [] => none
    | a :: q => some (.popped a, q)

/-- **A history**: the answers to operations in turn, and the state behind them. -/
def runBy {σ : Type} (step : σ → Op α → Option (Event α × σ)) (s : σ) :
    List (Op α) → Option (List (Event α) × σ)
  | [] => some ([], s)
  | op :: ops => do
    let (event, s) ← step s op
    let (events, s) ← runBy step s ops
    return (event :: events, s)

/-- A history starts with a step and goes on from there. -/
theorem runBy_cons_eq_some_iff {σ : Type} {step : σ → Op α → Option (Event α × σ)} {s s' : σ} {op : Op α}
    {ops : List (Op α)} {events : List (Event α)} :
    runBy step s (op :: ops) = some (events, s') ↔
      ∃ event t rest, step s op = some (event, t) ∧ runBy step t ops = some (rest, s') ∧
        events = event :: rest := by
  rw [runBy, Option.bind_eq_bind, Option.bind_eq_some_iff]
  constructor
  · rintro ⟨⟨event, t⟩, hstep, h⟩
    obtain ⟨⟨rest, s''⟩, hrest, h⟩ := Option.bind_eq_some_iff.mp h
    cases h
    exact ⟨event, t, rest, hstep, hrest, rfl⟩
  · rintro ⟨event, t, rest, hstep, hrest, rfl⟩
    exact ⟨(event, t), hstep, Option.bind_eq_some_iff.mpr ⟨(rest, s'), hrest, rfl⟩⟩

/-! ## The worklist answers as the queue -/

section Refinement

variable [BEq α] [Hashable α] [LawfulBEq α] {w w' : Worklist α}

/-- Answers, and the elements that wait behind them. -/
abbrev seen {β : Type} (p : β × Worklist α) : β × List α := (p.1, p.2.toList)

theorem Valid.step? [LawfulHashable α] {op : Op α} {event : Event α} (hw : w.Valid)
    (h : w.step? op = some (event, w')) : w'.Valid := by
  cases op with
  | push a =>
    cases h
    exact hw.push a
  | pop =>
    obtain ⟨⟨a, w''⟩, hpop, h⟩ := Option.map_eq_some_iff.mp h
    cases h
    exact (hw.pop? hpop).1

/-- **One operation has the same answer on the worklist as on its list view**, and leaves the same elements. -/
theorem map_step? (hw : w.Valid) (op : Op α) : (w.step? op).map seen = queueStep? w.toList op := by
  cases op with
  | push a =>
    show some (Event.pushed a (w.adds a), (w.push a).toList) = _
    rw [queueStep?]
    by_cases ha : a ∈ w.toList
    · have hadds : w.adds a = false := by simpa using mt (adds_iff hw).mp (not_not_intro ha)
      rw [if_pos ha, hadds, push_of_mem hw ha]
    · rw [if_neg ha, (adds_iff hw).mpr ha, toList_push_of_not_mem hw ha]
  | pop =>
    cases hpop : w.pop? with
    | none =>
      have hempty : w.toList = [] := pop?_eq_none_iff.mp hpop
      simp [Worklist.step?, queueStep?, hpop, hempty]
    | some p =>
      obtain ⟨a, w'⟩ := p
      have hlist : w.toList = a :: w'.toList := toList_pop? hpop
      simp [Worklist.step?, queueStep?, hpop, hlist]

theorem Valid.runBy [LawfulHashable α] {ops : List (Op α)} {events : List (Event α)} (hw : w.Valid)
    (h : runBy Worklist.step? w ops = some (events, w')) : w'.Valid := by
  induction ops generalizing w events with
  | nil =>
    cases h
    exact hw
  | cons op ops ih =>
    obtain ⟨event, v, rest, hstep, hrest, -⟩ := runBy_cons_eq_some_iff.mp h
    exact ih (hw.step? hstep) hrest

/-- **A history has the same answers on the worklist as on its list view.** By induction on the operations: each
leaves a valid worklist for the others. -/
theorem map_runBy [LawfulHashable α] (hw : w.Valid) (ops : List (Op α)) :
    (runBy Worklist.step? w ops).map seen = runBy queueStep? w.toList ops := by
  induction ops generalizing w with
  | nil => rfl
  | cons op ops ih =>
    have hqueue := map_step? hw op
    unfold runBy
    cases hstep : w.step? op with
    | none =>
      rw [hstep] at hqueue
      rw [← hqueue]
      rfl
    | some p =>
      obtain ⟨event, v⟩ := p
      rw [hstep] at hqueue
      rw [← hqueue]
      have hrest := ih (hw.step? hstep)
      show Option.map _ ((runBy Worklist.step? v ops).bind _) = (runBy queueStep? v.toList ops).bind _
      rw [← hrest]
      cases runBy Worklist.step? v ops with
      | none => rfl
      | some q => rfl

end Refinement

/-! ## Elements leave in turn -/

/-- The accepted pushes of a history, with the moments at which they happen; it starts at the given one. -/
def acceptedFrom (time : Nat) : List (Event α) → List (Nat × α)
  | [] => []
  | .pushed a true :: events => (time, a) :: acceptedFrom (time + 1) events
  | _ :: events => acceptedFrom (time + 1) events

/-- The pops of a history, with the moments at which they happen. -/
def poppedFrom (time : Nat) : List (Event α) → List (Nat × α)
  | [] => []
  | .popped a :: events => (time, a) :: poppedFrom (time + 1) events
  | _ :: events => poppedFrom (time + 1) events

/-- **A pop ends the wait of a push**: it is later, and of the same element. -/
def Ends (push pop : Nat × α) : Prop := push.1 < pop.1 ∧ push.2 = pop.2

/-- **Elements leave in turn**: the pops end the waits of the first accepted pushes, one each and in order, and the
elements of the others are those that wait. -/
def InTurn (accepted popped : List (Nat × α)) (queue : List α) : Prop :=
  ∃ served waiting, accepted = served ++ waiting ∧ List.Forall₂ Ends served popped ∧
    waiting.map Prod.snd = queue

/-- **From a queue of earlier pushes elements leave in turn.** By induction on the operations: an accepted push
joins those that wait, and a pop ends the wait of the first. -/
theorem inTurn_of_runBy [BEq α] [LawfulBEq α] {ops : List (Op α)} {events : List (Event α)}
    {waiting : List (Nat × α)} {time : Nat} {q : List α} (hearlier : ∀ p ∈ waiting, p.1 < time)
    (h : runBy queueStep? (waiting.map Prod.snd) ops = some (events, q)) :
    InTurn (waiting ++ acceptedFrom time events) (poppedFrom time events) q := by
  induction ops generalizing waiting time events with
  | nil =>
    cases h
    exact ⟨[], waiting, by simp [acceptedFrom], .nil, rfl⟩
  | cons op ops ih =>
    obtain ⟨event, q', rest, hstep, hrest, rfl⟩ := runBy_cons_eq_some_iff.mp h
    have hlater : ∀ p ∈ waiting, p.1 < time + 1 := fun p hp => Nat.lt_succ_of_lt (hearlier p hp)
    cases op with
    | push a =>
      rw [queueStep?] at hstep
      split at hstep
      · -- The element waits already.
        cases hstep
        have hturn := ih hlater hrest
        exact hturn
      · cases hstep
        have hjoined : ∀ p ∈ waiting ++ [(time, a)], p.1 < time + 1 := by
          intro p hp
          rcases List.mem_append.mp hp with hp | hp
          · exact hlater p hp
          · rw [List.mem_singleton.mp hp]
            exact Nat.lt_succ_self time
        have hturn := ih hjoined (by simpa using hrest)
        rwa [List.append_assoc] at hturn
    | pop =>
      cases waiting with
      | nil => exact nomatch hstep
      | cons first waiting =>
        cases hstep
        obtain ⟨-, hothers⟩ := List.forall_mem_cons.mp hlater
        obtain ⟨served, still, haccepted, hends, hqueue⟩ := ih hothers hrest
        have hend : Ends first (time, first.2) := ⟨hearlier first List.mem_cons_self, rfl⟩
        refine ⟨first :: served, still, ?_, .cons hend hends, hqueue⟩
        exact congrArg (first :: ·) haccepted

/-! ## Both -/

/-- **A worklist is a queue without duplicates.** From the empty worklist each history has the answers of the plain
queue, and pops are refused at the same moments. Behind it the set holds just the elements that wait, and none waits
twice; a push is accepted if the element does not wait, and then puts it at the end; and elements leave in turn,
so that each accepted push has one later pop or still waits. -/
theorem runs_as_queue [BEq α] [Hashable α] [LawfulBEq α] [LawfulHashable α] (ops : List (Op α)) :
    (runBy step? (empty : Worklist α) ops).map seen = runBy queueStep? [] ops ∧
    ∀ events w, runBy step? (empty : Worklist α) ops = some (events, w) →
      ((∀ a, a ∈ w.pending ↔ a ∈ w.toList) ∧ w.toList.Nodup) ∧
      (∀ a, (w.adds a = true ↔ a ∉ w.toList) ∧
        (w.push a).toList = if a ∈ w.toList then w.toList else w.toList ++ [a]) ∧
      InTurn (acceptedFrom 0 events) (poppedFrom 0 events) w.toList := by
  have hrefines : (runBy step? (empty : Worklist α) ops).map seen = runBy queueStep? [] ops :=
    map_runBy valid_empty ops
  refine ⟨hrefines, fun events w h => ?_⟩
  have hw : w.Valid := valid_empty.runBy h
  have hqueue : runBy queueStep? [] ops = some (events, w.toList) := by
    rw [← hrefines, h]
    rfl
  refine ⟨⟨hw.mem_pending, hw.nodup⟩, fun a => ⟨adds_iff hw, ?_⟩, ?_⟩
  · by_cases ha : a ∈ w.toList
    · rw [if_pos ha, push_of_mem hw ha]
    · rw [if_neg ha, toList_push_of_not_mem hw ha]
  · have hnone : ∀ p ∈ ([] : List (Nat × α)), p.1 < 0 := fun p hp => absurd hp List.not_mem_nil
    exact inTurn_of_runBy hnone hqueue

/-- The element 1 is pushed, refused, popped, and pushed again behind 2. -/
theorem runs_as_queue_again : ∃ w : Worklist Int,
    runBy step? empty [.push 1, .push 2, .push 1, .pop, .push 1] =
      some ([.pushed 1 true, .pushed 2 true, .pushed 1 false, .popped 1, .pushed 1 true], w) ∧
    w.toList = [2, 1] ∧ (∀ a, a ∈ w.pending ↔ a ∈ w.toList) ∧
    (w.push 2).toList = [2, 1] ∧ (w.push 3).toList = [2, 1, 3] ∧
    InTurn [(0, 1), (1, 2), (4, 1)] [(3, 1)] w.toList := by
  obtain ⟨hrefines, hbehind⟩ :=
    runs_as_queue ([.push 1, .push 2, .push 1, .pop, .push 1] : List (Op Int))
  obtain ⟨⟨events, w⟩, hrun, hseen⟩ := Option.map_eq_some_iff.mp (hrefines.trans rfl)
  obtain ⟨rfl, hlist⟩ := Prod.mk.inj hseen
  have hlist : w.toList = [2, 1] := hlist
  obtain ⟨⟨hpending, -⟩, hpush, hturn⟩ := hbehind _ w hrun
  refine ⟨w, hrun, hlist, hpending, ?_, ?_, hturn⟩
  · rw [(hpush 2).2, hlist]
    rfl
  · rw [(hpush 3).2, hlist]
    rfl

end StackMap.Worklist
