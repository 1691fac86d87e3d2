import Mathlib.Order.Bounds.Basic
import StackMap.Proofs.Flow.Deliver

/-!
# `Proofs.Flow.InPlace`: joins in place

A frame that arrives is joined into the one that is there, slot by slot. The slots hold addresses of
values. A value that is no reference is at one address only, but references are made afresh, so equal ones
can be at different addresses. Whether two slots are equal is a question of the values; whether the frame
has changed is a question of the addresses: a slot is written where the join is at another address. The
two questions have one answer, since a join keeps the address of the slot that it leaves as it is and
everything else goes to the one address of the value of which nothing is known. So the report of a change,
by which the analysis queues a position, is true just if the frame says less than before.

## Contents

* `Frame.mergeAll`, `Frame.isLUB_of_merge`, `Frame.isLUB_mergeAll`: the join of two frames and of many.
* `Memory`, `Stored`: values at addresses, and frames of addresses.
* `Memory.mergeInto`, `Memory.mergeEach`: joins in place, with the report of a change.
* `Memory.mergeInto_joins`: they are least upper bounds, and the report is right.
-/

namespace StackMap

/-! ## Least upper bounds -/

theorem Slot.Below.antisymm {a b : Slot} (h : Slot.Below a b) (h' : Slot.Below b a) : a = b := by
  rcases h with hb | hb
  · rcases h' with ha | ha
    · rw [ha, hb]
    · exact ha
  · exact hb.symm

theorem forall₂_below_antisymm {l l' : List Slot} (h : List.Forall₂ Slot.Below l l')
    (h' : List.Forall₂ Slot.Below l' l) : l = l' := by
  induction h with
  | nil => rfl
  | cons hab _ ih =>
    cases h' with
    | cons hba hrest => rw [hab.antisymm hba, ih hrest]

namespace Frame

/-- Frames are ordered by how much they say: a frame above says no more. -/
instance : Preorder Frame where
  le := Below
  le_refl := Below.refl
  le_trans _ _ _ := Below.trans

variable {f g h : Frame}

/-- Frames of one method that say as much are equal. -/
theorem Peer.eq_of_below (hpeer : f.Peer g) (hfg : f.Below g) (hgf : g.Below f) : f = g := by
  obtain ⟨locals, stack, maxStack, result⟩ := f
  obtain ⟨locals', stack', maxStack', result'⟩ := g
  have hlocals : locals = locals' :=
    Array.toList_inj.mp (forall₂_below_antisymm hfg.locals hgf.locals)
  have hstack : stack = stack' := forall₂_below_antisymm hfg.stack hgf.stack
  have hbound : maxStack = maxStack' := hpeer.maxStack
  have hresult : result = result' := hpeer.result
  rw [hlocals, hstack, hbound, hresult]

/-- **The result of a merge is the least frame above both.** -/
theorem isLUB_of_merge (hm : f.merge g = .ok h) : IsLUB {f, g} h := by
  obtain ⟨hf, hg⟩ := below_of_merge hm
  refine ⟨?_, fun u hu => ?_⟩
  · rintro k (rfl | rfl)
    · exact hf
    · exact hg
  · obtain ⟨h', hm', hle⟩ := merge_below (hu (Set.mem_insert f {g})) (hu (Set.mem_insert_of_mem f rfl))
    cases hm.symm.trans hm'
    exact hle

/-- Frames with as many local variables and entries on their stacks. -/
structure SameShape (f g : Frame) : Prop where
  locals : g.locals.size = f.locals.size
  stack : g.stack.length = f.stack.length

/-- **Frames are merged into a frame**, one after the other. -/
def mergeAll (f : Frame) (l : List Frame) : Except (Halt Cause) Frame := l.foldlM merge f

/-- **The result of many merges is the least frame above all.** -/
theorem isLUB_mergeAll {l : List Frame} (hl : ∀ g ∈ l, f.SameShape g) :
    ∃ h, f.mergeAll l = .ok h ∧ f.Peer h ∧ IsLUB (insert f {g | g ∈ l}) h := by
  -- The frame that the others are merged into goes up, and keeps its shape.
  induction l generalizing f with
  | nil =>
    refine ⟨f, rfl, Peer.refl f, ?_, fun u hu => hu (Set.mem_insert _ _)⟩
    rintro k (rfl | hk)
    · exact le_refl k
    · exact absurd hk List.not_mem_nil
  | cons g l ih =>
    rw [List.forall_mem_cons] at hl
    obtain ⟨hg, hl⟩ := hl
    have hm : f.merge g = .ok (f.join g) :=
      merge_eq_ok_iff.mpr ⟨hg.stack.symm, hg.locals.symm, rfl⟩
    obtain ⟨hf, hg'⟩ := below_of_merge hm
    obtain ⟨h, hh, hpeer, hupper, hleast⟩ := ih (f := f.join g) fun k hk =>
      ⟨(hl k hk).locals.trans hf.count, (hl k hk).stack.trans hf.height⟩
    have hjoin : f.join g ≤ h := hupper (Set.mem_insert _ _)
    refine ⟨h, ?_, (peer_of_merge hm).trans hpeer, ?_, fun u hu => hleast ?_⟩
    · show (f.merge g >>= fun f' => f'.mergeAll l) = .ok h
      rw [hm]
      exact hh
    · rintro k (rfl | hk)
      · exact le_trans hf hjoin
      · rcases List.mem_cons.mp hk with rfl | hk
        · exact le_trans hg' hjoin
        · exact hupper (Set.mem_insert_of_mem _ hk)
    · rintro k (rfl | hk)
      · refine (isLUB_of_merge hm).2 ?_
        rintro k (rfl | rfl)
        · exact hu (Set.mem_insert _ _)
        · exact hu (Set.mem_insert_of_mem _ List.mem_cons_self)
      · exact hu (Set.mem_insert_of_mem _ (List.mem_cons_of_mem g hk))

/-- **Neither the order nor repetitions matter**: the result of many merges depends on the frames only. -/
theorem mergeAll_congr {l l' : List Frame} (hl : ∀ g ∈ l, f.SameShape g)
    (hmem : ∀ g, g ∈ l ↔ g ∈ l') : ∃ h, f.mergeAll l = .ok h ∧ f.mergeAll l' = .ok h := by
  obtain ⟨h, hh, hpeer, hlub⟩ := isLUB_mergeAll hl
  obtain ⟨h', hh', hpeer', hlub'⟩ := isLUB_mergeAll fun g hg => hl g ((hmem g).mpr hg)
  have hset : {g | g ∈ l'} = {g | g ∈ l} := Set.ext fun g => (hmem g).symm
  rw [hset] at hlub'
  have heq : h' = h :=
    (hpeer'.symm.trans hpeer).eq_of_below (hlub'.2 hlub.1) (hlub.2 hlub'.1)
  exact ⟨h, hh, heq ▸ hh'⟩

end Frame

namespace State

/-- A delivery to a position with a frame queues it just if the frame there changes. -/
theorem deliver_of_merge {s : State} {j : Nat} {old f new : Frame} {changed : Bool}
    (hold : s.frames[j]? = some (some old)) (hm : old.merge f = .ok new)
    (hchanged : changed = true ↔ new ≠ old) :
    s.deliver j f = .ok
      (if changed then ⟨s.frames.setIfInBounds j (some new), s.queue.push j⟩ else s) := by
  rw [deliver_eq]
  simp only [hold, hm]
  by_cases hnew : new = old
  · rw [if_pos hnew, if_neg fun h => hchanged.mp h hnew]
  · rw [if_neg hnew, if_pos (hchanged.mpr hnew)]

end State

/-! ## Values at addresses -/

/-- **Values at addresses.** A value that is no reference is at one address only; `blank` is that of the
value of which nothing is known. -/
structure Memory (α : Type) where
  value : α → Value
  blank : α
  value_blank : value blank = .uninit
  unique : ∀ a b, value a = value b → ¬ (value a).isReference → a = b

/-- A frame whose slots hold addresses. -/
structure Stored (α : Type) where
  locals : List (Option α)
  stack : List (Option α)
  maxStack : Nat
  result : Option α

/-- Values are told apart by the types that they carry. -/
theorem Value.type_injective {v w : Value} (h : v.type = w.type) : v = w := by
  cases v <;> cases w <;> first | rfl | cases h; rfl | cases h

namespace Memory

variable {α : Type} [DecidableEq α] (M : Memory α)

/-- The slot that an address stands for. -/
def read (a : Option α) : Slot := a.map M.value

/-- The frame that a frame of addresses stands for. -/
def frame (f : Stored α) : Frame :=
  ⟨(f.locals.map M.read).toArray, f.stack.map M.read, f.maxStack, M.read f.result⟩

/-- **Whether two slots are equal**: they hold one address, or values of one type. A return address is
equal to itself only. -/
def equal (a b : Option α) : Bool :=
  a = b || match a, b with
    | some a, some b =>
      M.value a != .returnAddress && M.value b != .returnAddress && (M.value a).type == (M.value b).type
    | _, _ => false

/-- **The join of two slots**: the first one if they are equal, and else nothing is known. -/
def join (a b : Option α) : Option α := if M.equal a b then a else some M.blank

/-- **Slots are joined in place**: each is written where the join is at another address. The second part
says whether one was written. -/
def absorb : List (Option α) → List (Option α) → List (Option α) × Bool
  | a :: l, b :: l' =>
    let rest := absorb l l'
    if M.join a b = a then (a :: rest.1, rest.2) else (M.join a b :: rest.1, true)
  | l, _ => (l, false)

/-- **A frame is joined into another one in place.** The report says whether that one changed, or why the
join is refused; the second part is that frame afterwards. -/
def mergeInto (f g : Stored α) : Except (Halt Cause) Bool × Stored α :=
  if f.stack.length ≠ g.stack.length then
    (.error (.failed (.stackHeights f.stack.length g.stack.length)), f)
  else if f.locals.length ≠ g.locals.length then
    (.error (.fault (.localCounts f.locals.length g.locals.length)), f)
  else
    let locals := M.absorb f.locals g.locals
    let stack := M.absorb f.stack g.stack
    (.ok (locals.2 || stack.2), { f with locals := locals.1, stack := stack.1 })

/-- Frames are joined into a frame in place, one after the other. -/
def mergeEach (f : Stored α) : List (Stored α) → Except (Halt Cause) (Stored α)
  | [] => .ok f
  | g :: l =>
    match M.mergeInto f g with
    | (.error halt, _) => .error halt
    | (.ok _, f') => mergeEach f' l

/-! ## Slots -/

variable {M} {a b : Option α} {l l' : List (Option α)}

/-- Slots are equal just if they hold equal values. -/
theorem equal_iff : M.equal a b ↔ M.read a = M.read b := by
  unfold equal read
  cases a with
  | none => cases b <;> simp
  | some a =>
    cases b with
    | none => simp
    | some b =>
      simp only [Option.some.injEq, Option.map_some, Bool.or_eq_true, decide_eq_true_eq,
        Bool.and_eq_true, bne_iff_ne, beq_iff_eq]
      constructor
      · rintro (rfl | ⟨-, htype⟩)
        · rfl
        · exact Value.type_injective htype
      · intro heq
        by_cases hreturn : M.value a = .returnAddress
        · exact Or.inl (M.unique a b heq (by rw [hreturn]; decide))
        · exact Or.inr ⟨⟨hreturn, heq ▸ hreturn⟩, by rw [heq]⟩

/-- The join of addresses stands for the join of the slots. -/
theorem read_join : M.read (M.join a b) = Slot.merge (M.read a) (M.read b) := by
  unfold join Slot.merge
  by_cases h : M.read a = M.read b
  · rw [if_pos (equal_iff.mpr h), if_pos h]
  · rw [if_neg (mt equal_iff.mp h), if_neg h]
    exact congrArg some M.value_blank

/-- **A join keeps an address just if it keeps the value there.** -/
theorem join_eq_self_iff : M.join a b = a ↔ Slot.merge (M.read a) (M.read b) = M.read a := by
  constructor
  · intro h
    rw [← read_join, h]
  · intro h
    rw [← read_join] at h
    unfold join at h ⊢
    split
    · rfl
    · -- Nothing is known of the first slot, and there is one address for that.
      rename_i hne
      rw [if_neg hne] at h
      obtain ⟨a', rfl, ha⟩ := Option.map_eq_some_iff.mp h.symm
      refine congrArg some (M.unique _ _ ha.symm ?_)
      rw [M.value_blank]
      decide

theorem absorb_cons_of_self (h : M.join a b = a) :
    M.absorb (a :: l) (b :: l') = (a :: (M.absorb l l').1, (M.absorb l l').2) := by
  rw [absorb]
  exact if_pos h

theorem absorb_cons_of_ne (h : M.join a b ≠ a) :
    M.absorb (a :: l) (b :: l') = (M.join a b :: (M.absorb l l').1, true) := by
  rw [absorb]
  exact if_neg h

theorem length_absorb : (M.absorb l l').1.length = l.length := by
  induction l generalizing l' with
  | nil => rfl
  | cons a l ih =>
    cases l' with
    | nil => rfl
    | cons b l' =>
      by_cases h : M.join a b = a
      · rw [absorb_cons_of_self h]
        exact congrArg (· + 1) ih
      · rw [absorb_cons_of_ne h]
        exact congrArg (· + 1) ih

/-- Slots that are joined in place stand for the joins of the slots. -/
theorem map_read_absorb (hlen : l.length = l'.length) :
    (M.absorb l l').1.map M.read = List.zipWith Slot.merge (l.map M.read) (l'.map M.read) := by
  induction l generalizing l' with
  | nil => rfl
  | cons a l ih =>
    cases l' with
    | nil => exact nomatch hlen
    | cons b l' =>
      have hrest := ih (Nat.succ.inj hlen)
      rw [List.map_cons, List.map_cons, List.zipWith_cons_cons, ← read_join, ← hrest]
      by_cases hself : M.join a b = a
      · rw [absorb_cons_of_self hself, List.map_cons, hself]
      · rw [absorb_cons_of_ne hself, List.map_cons]

/-- The report of a write is right: without one the slots hold the addresses that they held. -/
theorem absorb_writes_iff (hlen : l.length = l'.length) :
    (M.absorb l l').2 = true ↔ (M.absorb l l').1 ≠ l := by
  induction l generalizing l' with
  | nil => simp [absorb]
  | cons a l ih =>
    cases l' with
    | nil => exact nomatch hlen
    | cons b l' =>
      have hrest := ih (Nat.succ.inj hlen)
      by_cases hself : M.join a b = a
      · rw [absorb_cons_of_self hself, hrest, Ne, Ne, List.cons.injEq, and_iff_right rfl]
      · rw [absorb_cons_of_ne hself]
        exact iff_of_true rfl fun h => hself (List.cons.inj h).1

/-- **Slots keep their addresses just if they keep their values.** -/
theorem absorb_eq_self_iff (hlen : l.length = l'.length) :
    (M.absorb l l').1 = l ↔ (M.absorb l l').1.map M.read = l.map M.read := by
  induction l generalizing l' with
  | nil => simp [absorb]
  | cons a l ih =>
    cases l' with
    | nil => exact nomatch hlen
    | cons b l' =>
      have hrest := ih (Nat.succ.inj hlen)
      by_cases hself : M.join a b = a
      · rw [absorb_cons_of_self hself, List.map_cons, List.map_cons, List.cons.injEq, List.cons.injEq,
          and_iff_right rfl, and_iff_right rfl, hrest]
      · rw [absorb_cons_of_ne hself, List.map_cons, List.map_cons, read_join]
        refine iff_of_false (fun h => hself (List.cons.inj h).1) fun h => ?_
        exact hself (join_eq_self_iff.mpr (List.cons.inj h).1)

/-! ## Frames -/

variable {f g f' : Stored α}

omit [DecidableEq α] in
theorem size_frame : (M.frame f).locals.size = f.locals.length := by
  rw [frame, List.size_toArray, List.length_map]

omit [DecidableEq α] in
theorem height_frame : (M.frame f).stack.length = f.stack.length := List.length_map _

/-- A join is refused where the heights of the stacks differ, and changes nothing there. -/
theorem mergeInto_of_heights (h : f.stack.length ≠ g.stack.length) :
    M.mergeInto f g = (.error (.failed (.stackHeights f.stack.length g.stack.length)), f) := by
  unfold mergeInto
  rw [if_pos h]

/-- **A join in place is the merge of the frames**, and reports a change just if there is one, be it of
addresses or of values. -/
theorem mergeInto_of_shape (hlocals : f.locals.length = g.locals.length)
    (hstack : f.stack.length = g.stack.length) :
    ∃ changed f', M.mergeInto f g = (.ok changed, f') ∧
      (M.frame f).merge (M.frame g) = .ok (M.frame f') ∧
      (changed = true ↔ f' ≠ f) ∧ (f' = f ↔ M.frame f' = M.frame f) ∧
      f'.locals.length = f.locals.length ∧ f'.stack.length = f.stack.length := by
  obtain ⟨locals, stack, maxStack, result⟩ := f
  refine ⟨(M.absorb locals g.locals).2 || (M.absorb stack g.stack).2,
    ⟨(M.absorb locals g.locals).1, (M.absorb stack g.stack).1, maxStack, result⟩,
    ?_, ?_, ?_, ?_, length_absorb, length_absorb⟩
  · unfold mergeInto
    rw [if_neg (not_not.mpr hstack), if_neg (not_not.mpr hlocals)]
  · refine Frame.merge_eq_ok_iff.mpr ⟨?_, ?_, ?_⟩
    · rw [height_frame, height_frame, hstack]
    · rw [size_frame, size_frame, hlocals]
    · simp only [frame, Frame.join, map_read_absorb hlocals, map_read_absorb hstack, List.zipWith_toArray]
  · rw [Bool.or_eq_true, absorb_writes_iff hlocals, absorb_writes_iff hstack]
    simp only [ne_eq, Stored.mk.injEq, and_true, not_and_or]
  · simp only [frame, Stored.mk.injEq, Frame.mk.injEq, and_true, absorb_eq_self_iff hlocals,
      absorb_eq_self_iff hstack, List.toArray_eq_toArray_eq]

/-- Joins in place, one after the other, are the merges of the frames. -/
theorem mergeEach_eq_mergeAll {l : List (Stored α)}
    (hl : ∀ g ∈ l, g.locals.length = f.locals.length ∧ g.stack.length = f.stack.length) :
    ∃ h, M.mergeEach f l = .ok h ∧ (M.frame f).mergeAll (l.map M.frame) = .ok (M.frame h) := by
  induction l generalizing f with
  | nil => exact ⟨f, rfl, rfl⟩
  | cons g l ih =>
    rw [List.forall_mem_cons] at hl
    obtain ⟨⟨hlocals, hstack⟩, hl⟩ := hl
    obtain ⟨changed, f', hinto, hmerge, -, -, hlocals', hstack'⟩ :=
      mergeInto_of_shape (M := M) hlocals.symm hstack.symm
    obtain ⟨h, hh, hall⟩ := ih (f := f') fun k hk =>
      ⟨(hl k hk).1.trans hlocals'.symm, (hl k hk).2.trans hstack'.symm⟩
    refine ⟨h, ?_, ?_⟩
    · unfold mergeEach
      rw [hinto]
      exact hh
    · show ((M.frame f).merge (M.frame g) >>= fun k => k.mergeAll (l.map M.frame)) = .ok (M.frame h)
      rw [hmerge]
      exact hall

variable (M) in
/-- **Joins in place are least upper bounds.** A join of frames with as many local variables is refused
just if the heights of the stacks differ, and then leaves the frame as it is. Otherwise the frame becomes
the least one above both, and the report says whether that is another frame, which is so just if the one
that arrived was not below it; by this report the analysis queues the position. Many joins, in any order
and with any repetitions, end in one frame. -/
theorem mergeInto_joins (f : Stored α) :
    (∀ g : Stored α, g.locals.length = f.locals.length →
      (f.stack.length ≠ g.stack.length →
        M.mergeInto f g = (.error (.failed (.stackHeights f.stack.length g.stack.length)), f) ∧
        (M.frame f).merge (M.frame g) =
          .error (.failed (.stackHeights f.stack.length g.stack.length))) ∧
      (f.stack.length = g.stack.length →
        ∃ changed f', M.mergeInto f g = (.ok changed, f') ∧
          (M.frame f).merge (M.frame g) = .ok (M.frame f') ∧
          IsLUB {M.frame f, M.frame g} (M.frame f') ∧
          (changed = true ↔ f' ≠ f) ∧ (changed = true ↔ M.frame f' ≠ M.frame f) ∧
          (changed = true ↔ ¬ (M.frame g).Below (M.frame f)) ∧
          ∀ (s : State) (j : Nat), s.frames[j]? = some (some (M.frame f)) →
            s.deliver j (M.frame g) = .ok
              (if changed then ⟨s.frames.setIfInBounds j (some (M.frame f')), s.queue.push j⟩ else s))) ∧
    ∀ l l' : List (Stored α),
      (∀ g ∈ l, g.locals.length = f.locals.length ∧ g.stack.length = f.stack.length) →
      (∀ g ∈ l', g.locals.length = f.locals.length ∧ g.stack.length = f.stack.length) →
      (∀ x, x ∈ l.map M.frame ↔ x ∈ l'.map M.frame) →
      ∃ h h', M.mergeEach f l = .ok h ∧ M.mergeEach f l' = .ok h' ∧ M.frame h = M.frame h' ∧
        IsLUB (insert (M.frame f) {x | x ∈ l.map M.frame}) (M.frame h) := by
  refine ⟨fun g hlocals => ⟨fun hstack => ⟨mergeInto_of_heights hstack, ?_⟩, fun hstack => ?_⟩, ?_⟩
  · unfold Frame.merge
    rw [height_frame, height_frame, if_pos hstack]
  · obtain ⟨changed, f', hinto, hmerge, hwritten, hsame, -, -⟩ :=
      mergeInto_of_shape (M := M) hlocals.symm hstack
    have hchanged : changed = true ↔ M.frame f' ≠ M.frame f := hwritten.trans (not_congr hsame)
    refine ⟨changed, f', hinto, hmerge, Frame.isLUB_of_merge hmerge, hwritten, hchanged, ?_,
      fun s j hs => State.deliver_of_merge hs hmerge hchanged⟩
    rw [hchanged, ← Frame.merge_eq_self_iff, hmerge, Except.ok.injEq]
  · intro l l' hl hl' hmem
    obtain ⟨h, hh, hall⟩ := mergeEach_eq_mergeAll (M := M) hl
    obtain ⟨h', hh', hall'⟩ := mergeEach_eq_mergeAll (M := M) hl'
    have hshape : ∀ x ∈ l.map M.frame, (M.frame f).SameShape x := by
      intro x hx
      obtain ⟨g, hg, rfl⟩ := List.mem_map.mp hx
      exact ⟨by rw [size_frame, size_frame, (hl g hg).1], by rw [height_frame, height_frame, (hl g hg).2]⟩
    obtain ⟨k, hk, hk'⟩ := Frame.mergeAll_congr hshape hmem
    obtain ⟨k', hk'', -, hlub⟩ := Frame.isLUB_mergeAll hshape
    obtain rfl : k = M.frame h := Except.ok.inj (hk.symm.trans hall)
    obtain rfl : k' = M.frame h := Except.ok.inj (hk''.symm.trans hall)
    exact ⟨h, h', hh, hh', Except.ok.inj (hk'.symm.trans hall'), hlub⟩

/-! ## Two copies of every reference -/

/-- An address in a memory that has two copies of every reference and one of everything else. -/
abbrev Copy : Type := {p : Value × Bool // p.1.isReference ∨ p.2 = false}

def copies : Memory Copy where
  value p := p.1.1
  blank := ⟨(.uninit, false), Or.inr rfl⟩
  value_blank := rfl
  unique := by
    rintro ⟨⟨v, i⟩, hi⟩ ⟨⟨w, j⟩, hj⟩ heq hnot
    obtain rfl : v = w := heq
    have hfirst : i = false := hi.resolve_left hnot
    have hsecond : j = false := hj.resolve_left hnot
    rw [Subtype.mk.injEq, hfirst, hsecond]

/-- The first and the second copy of a reference. -/
def reference (copy : Bool) : Option Copy := some ⟨(.object "LA;", copy), Or.inl rfl⟩

/-- A frame with a reference in its local variable and another value on its stack. -/
def single (copy : Bool) (v : Option Copy) : Stored Copy := ⟨[reference copy], [v], 1, none⟩

def anInt : Option Copy := some ⟨(.int, false), Or.inr rfl⟩

def aFloat : Option Copy := some ⟨(.float, false), Or.inr rfl⟩

/-- Another copy of a reference is no change; a float for an int is one. -/
theorem mergeInto_joins_copies :
    copies.mergeInto (single false anInt) (single true anInt) = (.ok false, single false anInt) ∧
      ∃ f', copies.mergeInto (single false anInt) (single true aFloat) = (.ok true, f') ∧
        IsLUB {copies.frame (single false anInt), copies.frame (single true aFloat)}
          (copies.frame f') := by
  obtain ⟨hjoins, -⟩ := mergeInto_joins copies (single false anInt)
  constructor
  · obtain ⟨changed, f', hinto, -, -, hwritten, -, hbelow, -⟩ := (hjoins (single true anInt) rfl).2 rfl
    have hunchanged : changed ≠ true := fun h => hbelow.mp h (Frame.Below.refl _)
    obtain rfl : f' = single false anInt := not_not.mp (mt hwritten.mpr hunchanged)
    rw [hinto, Bool.eq_false_of_not_eq_true hunchanged]
  · obtain ⟨changed, f', hinto, -, hlub, -⟩ := (hjoins (single true aFloat) rfl).2 rfl
    have hchanged : changed = true := by
      have hreport : (copies.mergeInto (single false anInt) (single true aFloat)).1 = .ok true := rfl
      rw [hinto] at hreport
      exact Except.ok.inj hreport
    exact ⟨f', hchanged ▸ hinto, hlub⟩

end Memory

end StackMap
