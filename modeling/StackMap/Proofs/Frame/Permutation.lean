import StackMap.Proofs.Frame.Proper
import StackMap.Proofs.Frame.Words

/-!
# `Proofs.Frame.Permutation`: how stack instructions end

A stack instruction looks at its operands before it puts anything back. If they do not fit, it fails because
of them, whatever the bound on the stack. If they fit, nothing but the bound can stop it, and the entries
that it puts back are the permuted words. So a bound adds one error to what happens without it, and that
error says exactly that the entries would be too many.

## Contents

* `Frame.unbounded`, `Frame.capped`: a frame without its bound, and what the bound makes of an outcome.
* `Exec.outcome`: how a run ends.
* `Exec.outcome_stackOp`, `Exec.outcome_misfit`: operands that fit and operands that do not.
* `Frame.stackOp_permutes_words`: stack instructions permute words.
-/

namespace StackMap

/-- The frame with a stack that is not bounded. -/
def Frame.unbounded (f : Frame) : Frame := { f with maxStack := 0 }

/-- **What a bound makes of an outcome** on a stack that is not bounded. -/
def Frame.capped (bound : Nat) : Except (Halt Cause) Frame → Except (Halt Cause) Frame
  | .ok g =>
    if g.stack.length ≤ bound then .ok { g with maxStack := bound } else .error (.failed .stackOverflow)
  | .error halt => .error halt

instance (f : Frame) (n : Nat) : Decidable (f.HasRoom n) :=
  inferInstanceAs (Decidable (f.maxStack = 0 ∨ f.stack.length + n ≤ f.maxStack))

/-- **What can be wrong with the operands of a stack instruction**: there are too few of them, or one is of
the wrong size. -/
def Cause.Misfit (insn : Insn) (cause : Cause) : Prop :=
  cause = .stackUnderflow ∨ ∃ n, cause = .wrongSize insn n

namespace Exec

variable {insn : Insn} {f g : Frame}

/-- **How a run ends.** -/
def outcome (x : Exec Unit) (f : Frame) : Except (Halt Cause) Frame :=
  match x.run f with
  | .ok _ f' => .ok f'
  | .error halt _ => .error halt

theorem outcome_congr {x y : Exec Unit} (h : x.run f = y.run g) : outcome x f = outcome y g := by
  unfold outcome
  rw [h]

theorem outcome_of_error {x : Exec Unit} {halt : Halt Cause} (h : x.run f = .error halt g) :
    outcome x f = .error halt := by
  unfold outcome
  rw [h]

theorem outcome_bind_of_ok {α : Type} {x : Exec α} {k : α → Exec Unit} {a : α}
    (h : x.run f = .ok a g) : outcome (x >>= k) f = outcome (k a) g :=
  outcome_congr (run_bind_of_ok h)

theorem outcome_bind_of_error {α : Type} {x : Exec α} {k : α → Exec Unit} {halt : Halt Cause}
    (h : x.run f = .error halt g) : outcome (x >>= k) f = .error halt :=
  outcome_of_error (run_bind_of_error h)

/-! ## Putting entries back -/

theorem run_push_of_full (x : Value) (h : ¬ f.HasRoom 1) :
    (push insn (some x)).run f = .error (.failed .stackOverflow) f := by
  unfold Frame.HasRoom at h
  rw [run_push_some, if_pos (by omega)]

theorem run_push_of_room (x : Value) (h : f.HasRoom 1) :
    (push insn (some x)).run f = .ok () { f with stack := some x :: f.stack } :=
  run_push_eq_ok_iff.mpr ⟨rfl, h, rfl⟩

theorem outcome_push (x : Value) : outcome (push insn (some x)) f =
    if f.HasRoom 1 then .ok { f with stack := some x :: f.stack } else .error (.failed .stackOverflow) := by
  by_cases hroom : f.HasRoom 1
  · rw [if_pos hroom]
    unfold outcome
    rw [run_push_of_room x hroom]
  · rw [if_neg hroom, outcome_of_error (run_push_of_full x hroom)]

/-- **Nothing but the bound stops values from being put back.** -/
theorem outcome_pushAll {vs : List Slot} (hvs : ∀ v ∈ vs, v.isSome) (hf : f.Bounded) :
    outcome (pushAll insn vs) f = if f.HasRoom vs.length then .ok { f with stack := vs.reverse ++ f.stack }
      else .error (.failed .stackOverflow) := by
  induction vs generalizing f with
  | nil =>
    have hroom : f.HasRoom 0 := by
      unfold Frame.HasRoom
      rcases Nat.eq_zero_or_pos f.maxStack with hmax | hmax
      · exact Or.inl hmax
      · exact Or.inr (hf hmax)
    rw [List.length_nil, if_pos hroom]
    rfl
  | cons v vs ih =>
    rw [List.forall_mem_cons] at hvs
    obtain ⟨x, rfl⟩ := Option.isSome_iff_exists.mp hvs.1
    rw [pushAll]
    by_cases hroom : f.HasRoom 1
    · rw [outcome_bind_of_ok (run_push_of_room x hroom), ih hvs.2]
      · have hiff : Frame.HasRoom { f with stack := some x :: f.stack } vs.length ↔
            f.HasRoom (some x :: vs).length := by
          simp only [Frame.HasRoom, List.length_cons]
          omega
        simp only [hiff, List.reverse_cons, List.append_assoc, List.singleton_append]
      · unfold Frame.HasRoom at hroom
        intro hmax
        exact hroom.resolve_left (Nat.ne_of_gt hmax)
    · rw [outcome_bind_of_error (run_push_of_full x hroom), if_neg]
      simp only [Frame.HasRoom, List.length_cons] at hroom ⊢
      omega

/-! ## Operands -/

theorem run_sized_of_ne {x : Value} {n : Nat} (h : x.size ≠ n) :
    (sized insn n (some x)).run f = .error (.failed (.wrongSize insn n)) f := by
  show EStateM.run (if x.size = n then pure (some x) else fail (.wrongSize insn n)) f = _
  rw [if_neg h]
  rfl

theorem run_popSized_of_ne {x : Value} {rest : List Slot} {n : Nat} (h : x.size ≠ n) :
    (popSized insn n).run { f with stack := some x :: rest } =
      .error (.failed (.wrongSize insn n)) { f with stack := rest } := by
  rw [popSized_eq, run_bind_of_ok run_pop]
  exact run_sized_of_ne h

theorem run_topSized_of_ne {x : Value} {rest : List Slot} {n : Nat} (h : x.size ≠ n) :
    (topSized insn n).run { f with stack := some x :: rest } =
      .error (.failed (.wrongSize insn n)) { f with stack := some x :: rest } := by
  rw [topSized_eq, run_bind_of_ok run_top]
  exact run_sized_of_ne h

/-- The operand of `dup` stays where it is, and its plan takes it and puts back two. On a stack within its
bound that ends in the same way. -/
theorem outcome_dup {x : Value} {rest : List Slot}
    (hf : Frame.Bounded { f with stack := some x :: rest }) :
    outcome (stackOp insn .dup) { f with stack := some x :: rest } =
      outcome ((StackOp.plan .dup).exec insn []) { f with stack := some x :: rest } := by
  rw [stackOp, StackOp.plan, StackOp.Plan.exec]
  by_cases hx : x.size = 1
  · have hw : Slot.width (some x) = some 1 := congrArg some hx
    have hrest : Frame.Bounded { f with stack := rest } := fun hmax => Nat.le_of_succ_le (hf hmax)
    have hgiven : ∀ v ∈ [some x, some x], v.isSome := by simp
    have hroom : Frame.HasRoom { f with stack := some x :: rest } 1 ↔
        Frame.HasRoom { f with stack := rest } [some x, some x].length := by
      simp only [Frame.HasRoom, List.length_cons, List.length_nil]
    rw [outcome_bind_of_ok (run_topSized_eq_ok_iff.mpr ⟨rest, rfl, hw, rfl⟩), outcome_push,
      outcome_bind_of_ok (run_popSized_eq_ok_iff.mpr ⟨rest, rfl, hw, rfl⟩)]
    simp only [hroom]
    exact (outcome_pushAll hgiven hrest).symm
  · rw [outcome_bind_of_error (run_topSized_of_ne hx), outcome_bind_of_error (run_popSized_of_ne hx)]

theorem outcome_stackOp_eq_plan {op : StackOp} (hs : ∀ v ∈ f.stack, v.isSome) (hf : f.Bounded) :
    outcome (stackOp insn op) f = outcome (op.plan.exec insn []) f := by
  by_cases hop : op = .dup
  · subst hop
    obtain ⟨locals, stack, maxStack, result⟩ := f
    cases stack with
    | nil => rfl
    | cons v rest =>
      obtain ⟨x, rfl⟩ := Option.isSome_iff_exists.mp (hs v List.mem_cons_self)
      exact outcome_dup (f := ⟨locals, rest, maxStack, result⟩) hf
  · rw [stackOp_eq_plan hop]

/-- A form puts back only entries that it has taken. -/
theorem isSome_of_mem_given {op : StackOp} {form : StackOp.Form} {taken : List Slot}
    (hform : form ∈ op.forms) (htakes : form.Takes taken) : ∀ v ∈ form.given taken, v.isSome := by
  have hpicks : ∀ form ∈ op.forms, ∀ i ∈ form.picks, i < form.widths.length := by
    cases op <;> decide
  have hlen : taken.length = form.widths.length := by simpa using congrArg List.length htakes
  intro v hv
  obtain ⟨i, hi, rfl⟩ := List.mem_map.mp hv
  have hlt : i < taken.length := hlen ▸ hpicks form hform i hi
  have hget : (taken.map Slot.width)[i]? = (form.widths.map some)[i]? := by rw [htakes]
  rw [List.getElem?_map, List.getElem?_map, List.getElem?_eq_getElem hlt,
    List.getElem?_eq_getElem (hlen ▸ hlt)] at hget
  rw [List.getElem?_eq_getElem hlt]
  exact Slot.isSome_of_width (Option.some.inj hget)

/-- **Operands that fit.** -/
theorem outcome_stackOp {op : StackOp} {form : StackOp.Form} {taken rest : List Slot}
    (hform : form ∈ op.forms) (htakes : form.Takes taken) (hstack : f.stack = taken ++ rest)
    (hs : ∀ v ∈ f.stack, v.isSome) (hf : f.Bounded) :
    outcome (stackOp insn op) f =
      if f.maxStack = 0 ∨ (form.given taken ++ rest).length ≤ f.maxStack
      then .ok { f with stack := form.given taken ++ rest } else .error (.failed .stackOverflow) := by
  have hnil : ([] : List Slot).map Slot.width = ([] : List Nat).map some := rfl
  have hrun : (op.plan.exec insn []).run f =
      (pushAll insn (form.given taken).reverse).run { f with stack := rest } := by
    have hrun : (op.plan.exec insn []).run { f with stack := taken ++ rest } =
        (pushAll insn (form.given taken).reverse).run { f with stack := rest } :=
      StackOp.Plan.run_exec_of_takes (op.forms_plan.symm ▸ hform) hnil htakes
    rw [← hstack] at hrun
    exact hrun
  have hrest : Frame.Bounded { f with stack := rest } := by
    intro hmax
    have hheight := hf hmax
    rw [hstack, List.length_append] at hheight
    exact Nat.le_trans (Nat.le_add_left _ _) hheight
  have hgiven : ∀ v ∈ (form.given taken).reverse, v.isSome :=
    fun v hv => isSome_of_mem_given hform htakes v (List.mem_reverse.mp hv)
  rw [outcome_stackOp_eq_plan hs hf, outcome_congr hrun, outcome_pushAll hgiven hrest]
  simp only [Frame.HasRoom, List.length_reverse, List.reverse_reverse, List.length_append, Nat.add_comm]

/-- A plan whose forms do not fit fails because of the operands alone. -/
theorem outcome_exec_misfit (insn : Insn) {plan : StackOp.Plan} {widths : List Nat} {taken rest : List Slot}
    (htaken : taken.map Slot.width = widths.map some) (hrest : ∀ v ∈ rest, v.isSome)
    (hno : ∀ form ∈ plan.forms widths, ∀ more rest', rest = more ++ rest' →
      ¬ form.Takes (taken ++ more)) :
    ∃ cause : Cause, cause.Misfit insn ∧
      ∀ f : Frame, outcome (plan.exec insn taken) { f with stack := rest } = .error (.failed cause) := by
  -- The plan goes on as long as the operands have the sizes that it looks for.
  induction plan generalizing widths taken rest with
  | give picks =>
    refine absurd ?_ (hno ⟨widths, picks⟩ (List.mem_singleton_self _) [] rest rfl)
    rw [List.append_nil]
    exact htaken
  | take n next ih =>
    cases rest with
    | nil => exact ⟨.stackUnderflow, Or.inl rfl, fun f => rfl⟩
    | cons v rest =>
      rw [List.forall_mem_cons] at hrest
      obtain ⟨x, rfl⟩ := Option.isSome_iff_exists.mp hrest.1
      by_cases hx : x.size = n
      · have hv : Slot.width (some x) = some n := congrArg some hx
        obtain ⟨cause, hcause, hend⟩ := ih (StackOp.Plan.map_width_snoc htaken hv) hrest.2
          fun form hform more rest' hmore htakes => hno form hform (some x :: more) rest'
            (by rw [hmore, List.cons_append]) (by rwa [List.append_cons])
        refine ⟨cause, hcause, fun f => ?_⟩
        rw [StackOp.Plan.exec, outcome_bind_of_ok (run_popSized_eq_ok_iff.mpr ⟨rest, rfl, hv, rfl⟩)]
        exact hend f
      · refine ⟨.wrongSize insn n, Or.inr ⟨n, rfl⟩, fun f => ?_⟩
        rw [StackOp.Plan.exec, outcome_bind_of_error (run_popSized_of_ne hx)]
  | test wide narrow ihw ihn =>
    cases rest with
    | nil => exact ⟨.stackUnderflow, Or.inl rfl, fun f => rfl⟩
    | cons v rest =>
      rw [List.forall_mem_cons] at hrest
      obtain ⟨n, hv⟩ := Slot.exists_width hrest.1
      have hnext : ∀ (next : StackOp.Plan), (∀ form ∈ next.forms (widths ++ [n]),
          form ∈ (StackOp.Plan.test wide narrow).forms widths) →
          ∀ form ∈ next.forms (widths ++ [n]), ∀ more rest', rest = more ++ rest' →
            ¬ form.Takes (taken ++ [v] ++ more) := by
        intro next hsub form hform more rest' hmore htakes
        exact hno form (hsub form hform) (v :: more) rest' (by rw [hmore, List.cons_append])
          (by rwa [List.append_cons])
      have hrun : ∀ f : Frame, outcome ((StackOp.Plan.test wide narrow).exec insn taken)
          { f with stack := v :: rest } =
          outcome (if n = 2 then wide.exec insn (taken ++ [v]) else narrow.exec insn (taken ++ [v]))
            { f with stack := rest } := by
        intro f
        rw [StackOp.Plan.exec, outcome_bind_of_ok (run_pop_eq_ok_iff.mpr ⟨rest, rfl, rfl⟩),
          outcome_bind_of_ok (run_size_eq_ok_iff.mpr ⟨hv, rfl⟩)]
      simp only [hrun]
      rcases Slot.width_eq hv with rfl | rfl
      · exact ihn (StackOp.Plan.map_width_snoc htaken hv) hrest.2
          (hnext narrow fun form hform => List.mem_append_right _ hform)
      · exact ihw (StackOp.Plan.map_width_snoc htaken hv) hrest.2
          (hnext wide fun form hform => List.mem_append_left _ hform)

/-- **Operands that do not fit.** -/
theorem outcome_misfit (insn : Insn) {op : StackOp} {s : List Slot} (hs : ∀ v ∈ s, v.isSome)
    (hno : ¬ op.Fits (wordsOf s)) :
    ∃ cause : Cause, cause.Misfit insn ∧ ∀ f : Frame, f.stack = s → f.Bounded →
      outcome (stackOp insn op) f = .error (.failed cause) := by
  rw [StackOp.fits_iff hs] at hno
  have hnil : ([] : List Slot).map Slot.width = ([] : List Nat).map some := rfl
  have hplan : ∀ form ∈ op.plan.forms [], ∀ more rest, s = more ++ rest → ¬ form.Takes ([] ++ more) :=
    fun form hform more rest hmore htakes =>
      hno ⟨form, op.forms_plan ▸ hform, more, rest, hmore, htakes⟩
  obtain ⟨cause, hcause, hend⟩ := outcome_exec_misfit insn hnil hs hplan
  refine ⟨cause, hcause, fun f hstack hf => ?_⟩
  subst hstack
  rw [outcome_stackOp_eq_plan hs hf]
  exact hend f

end Exec

/-! ## Stack instructions -/

theorem Opcode.effect?_of_ofCode? {code : Int} {op : StackOp} (h : StackOp.ofCode? code = some op) :
    Opcode.effect? ⟨code⟩ = some (.rearrange op) := by
  unfold StackOp.ofCode? at h
  -- One branch for each code.
  repeat
    rcases ite_eq_iff.mp h with ⟨rfl, ⟨⟩⟩ | ⟨-, h⟩
    · rfl
  exact nomatch h

namespace Frame

variable {insn : Insn} {op : StackOp} {f : Frame}

theorem bounded_unbounded (f : Frame) : f.unbounded.Bounded := fun h => absurd h (Nat.lt_irrefl 0)

theorem execute_of_ofCode? (hop : StackOp.ofCode? insn.opcode.code = some op) :
    f.execute insn = Exec.outcome (Exec.stackOp insn op) f := by
  have hexec : Exec.execute insn = Exec.stackOp insn op := by
    unfold Exec.execute
    rw [show insn.opcode.effect? = some (.rearrange op) from Opcode.effect?_of_ofCode? hop]
    rfl
  unfold execute
  rw [hexec]
  rfl

/-- **On words that fit** an instruction puts the permuted words back, if there is room for them. -/
theorem execute_of_fits {s : List Slot} (hop : StackOp.ofCode? insn.opcode.code = some op)
    (hs : ∀ v ∈ s, v.isSome) (hfits : op.Fits (wordsOf s)) :
    ∃ s', op.permute? (wordsOf s) = some (wordsOf s') ∧ (∀ v ∈ s', v.isSome) ∧
      ∀ g : Frame, g.stack = s → g.Bounded → g.execute insn =
        if g.maxStack = 0 ∨ s'.length ≤ g.maxStack then .ok { g with stack := s' }
        else .error (.failed .stackOverflow) := by
  obtain ⟨form, hform, taken, rest, rfl, htakes⟩ := (StackOp.fits_iff hs).mp hfits
  refine ⟨form.given taken ++ rest, permute?_words op form hform taken htakes, ?_, fun g hg hbounded => ?_⟩
  · rw [List.forall_mem_append] at hs ⊢
    exact ⟨Exec.isSome_of_mem_given hform htakes, hs.2⟩
  · rw [execute_of_ofCode? hop]
    exact Exec.outcome_stackOp hform htakes hg (hg ▸ hs) hbounded

/-- **On words that do not fit** an instruction fails because of them, whatever the bound. -/
theorem execute_of_not_fits {s : List Slot} (hop : StackOp.ofCode? insn.opcode.code = some op)
    (hs : ∀ v ∈ s, v.isSome) (hno : ¬ op.Fits (wordsOf s)) :
    ∃ cause : Cause, cause.Misfit insn ∧
      ∀ g : Frame, g.stack = s → g.Bounded → g.execute insn = .error (.failed cause) := by
  obtain ⟨cause, hcause, hend⟩ := Exec.outcome_misfit insn hs hno
  refine ⟨cause, hcause, fun g hg hbounded => ?_⟩
  rw [execute_of_ofCode? hop]
  exact hend g hg hbounded

/-- **Stack instructions permute words.** On a stack that is not bounded, an instruction runs exactly if it
fits the words of the stack, and then it does to them what its rule says and leaves the local variables
alone; if it does not fit, the operands are to blame. On a stack within its bound it ends in the same way,
but for an overflow exactly if there were too many entries. -/
theorem stackOp_permutes_words (hop : StackOp.ofCode? insn.opcode.code = some op)
    (hs : ∀ v ∈ f.stack, v.isSome) :
    ((∃ g, f.unbounded.execute insn = .ok g) ↔ op.Fits (wordsOf f.stack)) ∧
    (∀ g, f.unbounded.execute insn = .ok g →
      op.permute? (wordsOf f.stack) = some (wordsOf g.stack) ∧ (∀ v ∈ g.stack, v.isSome) ∧
        g.locals = f.locals) ∧
    (¬ op.Fits (wordsOf f.stack) →
      ∃ cause : Cause, cause.Misfit insn ∧ f.unbounded.execute insn = .error (.failed cause)) ∧
    (0 < f.maxStack → f.stack.length ≤ f.maxStack →
      f.execute insn = capped f.maxStack (f.unbounded.execute insn) ∧
      (f.execute insn = .error (.failed .stackOverflow) ↔
        ∃ g, f.unbounded.execute insn = .ok g ∧ f.maxStack < g.stack.length)) := by
  by_cases hfits : op.Fits (wordsOf f.stack)
  · obtain ⟨s', hwords, hs', hrun⟩ := execute_of_fits hop hs hfits
    have hunbounded : f.unbounded.execute insn = .ok { f.unbounded with stack := s' } :=
      (hrun f.unbounded rfl f.bounded_unbounded).trans (if_pos (Or.inl rfl))
    rw [hunbounded]
    refine ⟨⟨fun _ => hfits, fun _ => ⟨_, rfl⟩⟩, ?_, fun h => absurd hfits h, fun hpos hheight => ?_⟩
    · rintro g ⟨⟩
      exact ⟨hwords, hs', rfl⟩
    · rw [hrun f rfl fun _ => hheight]
      by_cases hroom : s'.length ≤ f.maxStack
      · rw [if_pos (Or.inr hroom), capped, if_pos hroom]
        refine ⟨rfl, nofun, ?_⟩
        rintro ⟨g, ⟨⟩, hlt⟩
        exact absurd hroom (Nat.not_le_of_gt hlt)
      · rw [if_neg (by omega), capped, if_neg hroom]
        exact ⟨rfl, fun _ => ⟨_, rfl, Nat.lt_of_not_le hroom⟩, fun _ => rfl⟩
  · obtain ⟨cause, hcause, hrun⟩ := execute_of_not_fits hop hs hfits
    rw [hrun f.unbounded rfl f.bounded_unbounded]
    refine ⟨⟨fun ⟨_, h⟩ => (nomatch h), fun h => absurd h hfits⟩, nofun, fun _ => ⟨cause, hcause, rfl⟩,
      fun _ hheight => ?_⟩
    rw [hrun f rfl fun _ => hheight]
    refine ⟨rfl, fun h => ?_, fun ⟨_, h, _⟩ => nomatch h⟩
    -- The operands are to blame, and not the bound.
    cases h
    rcases hcause with h | ⟨n, h⟩
    · exact nomatch h
    · exact nomatch h

/-- `dup2_x2` on two words above a pair: it fits, and the six entries that it makes are too many for a stack
of five. -/
theorem stackOp_permutes_words_dup2X2 :
    let f : Frame := ⟨#[], [some .int, some .float, some .long, some .int], 5, none⟩
    StackOp.dup2X2.Fits (wordsOf f.stack) ∧
      StackOp.dup2X2.permute? (wordsOf f.stack) =
        some [.whole .int, .whole .float, .upper .long, .lower .long, .whole .int, .whole .float,
          .whole .int] ∧
      f.execute (.plain ⟨0x5e⟩) = .error (.failed .stackOverflow) := by
  intro f
  obtain ⟨hruns, hwords, -, hbound⟩ :=
    @stackOp_permutes_words (.plain ⟨0x5e⟩) .dup2X2 f rfl (by decide)
  have hrun : f.unbounded.execute (.plain ⟨0x5e⟩) =
      .ok ⟨#[], [some .int, some .float, some .long, some .int, some .float, some .int], 0, none⟩ := rfl
  exact ⟨hruns.mp ⟨_, hrun⟩, (hwords _ hrun).1,
    (hbound (by decide) (by decide)).2.mpr ⟨_, hrun, by decide⟩⟩

end Frame

end StackMap
