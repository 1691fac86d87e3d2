import Mathlib.Logic.Relation
import StackMap.Proofs.Flow.Reach
import StackMap.Proofs.Flow.Replay

/-!
# `Proofs.Flow.Control`: where control goes, read off the nodes

The positions that control can reach are known without any frame: a jump leads to its target, a switch to
all of its labels, the end of a subroutine behind every call of one, a guarded position to its handler,
and everything else to the next position. The analysis finds exactly these positions, although it sees an
edge only when it sends a frame along it. The code of a pseudo instruction comes before the kind of its
node: a jump node with this code leads on and not to its target.

## Contents

* `Method.Leads`, `Method.Reaches`: where control goes, and where it gets.
* `Graph.edge_iff_leads`, `Graph.reachable_iff_reaches`: the graph of a method says the same.
* `exists_frame_iff_reaches`, `frame_none_iff_not_reaches`: the positions that have frames.
* `MarkedJump`, `marked_jump_not_taken`: a jump node that does not jump.
-/

namespace StackMap

/-! ## Edges -/

/-- Whether a node chooses among labels. -/
def Insn.isSwitch : Insn → Bool
  | .tableSwitch .. | .lookupSwitch .. => true
  | _ => false

/-- Whether a node is a jump. -/
def Insn.isJumpNode : Insn → Bool
  | .jump .. => true
  | _ => false

/-- **Where control goes from a position**, read off the nodes of a method. A jump node with a code that
`jumps` admits goes to its target, and with any other code on. -/
inductive Method.Leads (jumps : Opcode → Prop) (m : Method) : Nat → Nat → Prop where
  /-- A jump goes to its target. -/
  | jump {i j : Nat} {op : Opcode} {target : Label} :
      m.insns[i]? = some (.jump op target) → jumps op → m.position? target = some j → Leads jumps m i j
  /-- A conditional jump also goes on. -/
  | pass {i : Nat} {op : Opcode} {target : Label} :
      m.insns[i]? = some (.jump op target) → op.isConditionalJump ∨ ¬ jumps op →
      Leads jumps m i (i + 1)
  /-- A switch goes to each of its labels. -/
  | switch {i j : Nat} {insn : Insn} {l : Label} :
      m.insns[i]? = some insn → insn.isSwitch → l ∈ insn.references → m.position? l = some j →
      Leads jumps m i j
  /-- A subroutine ends behind any call of a subroutine. -/
  | ret {i k : Nat} {insn call : Insn} :
      m.insns[i]? = some insn → ¬ insn.isJumpNode → ¬ insn.isSwitch → insn.opcode = .ret →
      m.insns[k]? = some call → call.opcode = .jsr → Leads jumps m i (k + 1)
  /-- Everything else goes on, unless it leaves the method. -/
  | next {i : Nat} {insn : Insn} :
      m.insns[i]? = some insn → ¬ insn.isJumpNode → ¬ insn.isSwitch → insn.opcode ≠ .ret →
      insn.opcode ≠ .athrow → ¬ insn.opcode.isReturn → Leads jumps m i (i + 1)
  /-- Every position of a guarded range goes to the handler. -/
  | guarded {i first last j : Nat} {insn : Insn} {block : TryCatch} :
      m.insns[i]? = some insn → block ∈ m.tryCatch → m.position? block.start = some first →
      m.position? block.stop = some last → m.position? block.handler = some j →
      first ≤ i → i < last → Leads jumps m i j

/-- **Control reaches a position** of a method from its first instruction. A jump node with the code of a
pseudo instruction does not jump. -/
def Method.Reaches (m : Method) (i : Nat) : Prop :=
  Relation.ReflTransGen (m.Leads (· ≠ .pseudo)) 0 i

namespace Graph

variable {m : Method} {g : Graph} {i j : Nat} {insn : Insn}

theorem locate_eq_ok_iff {l : Label} : locate m l = .ok j ↔ m.position? l = some j := by
  unfold locate
  split
  · rename_i k hk
    rw [hk, Except.ok.injEq, Option.some.injEq]
  · rename_i hnone
    rw [hnone]
    exact ⟨nofun, nofun⟩

theorem locate_eq_error_iff {l l' : Label} :
    locate m l = .error l' ↔ l' = l ∧ m.position? l = none := by
  unfold locate
  split
  · rename_i k hk
    rw [hk]
    exact ⟨nofun, fun h => nomatch h.2⟩
  · rename_i hnone
    rw [Except.error.injEq]
    exact ⟨fun h => ⟨h.symm, hnone⟩, fun h => h.1.symm⟩

theorem guardOf_eq_ok_iff {block : TryCatch} {r : Guard} :
    guardOf m block = .ok r ↔
      m.position? block.start = some r.first ∧ m.position? block.stop = some r.last ∧
        m.position? block.handler = some r.handler.index ∧
        r.handler.caught = caughtValue block.type := by
  constructor
  · intro h
    obtain ⟨first, hfirst, h⟩ := bind_eq_ok_iff.mp h
    obtain ⟨last, hlast, h⟩ := bind_eq_ok_iff.mp h
    obtain ⟨index, hindex, h⟩ := bind_eq_ok_iff.mp h
    cases h
    exact ⟨locate_eq_ok_iff.mp hfirst, locate_eq_ok_iff.mp hlast, locate_eq_ok_iff.mp hindex, rfl⟩
  · obtain ⟨first, last, index, caught⟩ := r
    rintro ⟨hfirst, hlast, hindex, rfl⟩
    unfold guardOf
    rw [locate_eq_ok_iff.mpr hfirst, locate_eq_ok_iff.mpr hlast, locate_eq_ok_iff.mpr hindex]
    rfl

/-- **The handlers of a position** are those of the blocks around it. -/
theorem mem_handlersAt_iff (hg : ofMethod m = .ok g) {handler : Handler} :
    handler ∈ g.handlersAt i ↔
      ∃ block ∈ m.tryCatch, ∃ first last, m.position? block.start = some first ∧
        m.position? block.stop = some last ∧ m.position? block.handler = some handler.index ∧
        handler.caught = caughtValue block.type ∧ first ≤ i ∧ i < last := by
  obtain ⟨guards, hguards, hg⟩ := bind_eq_ok_iff.mp hg
  cases hg
  simp only [handlersAt, List.mem_map, List.mem_filter, Bool.and_eq_true, decide_eq_true_eq]
  constructor
  · rintro ⟨r, ⟨hr, hfirst, hlast⟩, rfl⟩
    obtain ⟨block, hblock, hguard⟩ := exists_of_mem_mapM hguards hr
    obtain ⟨h1, h2, h3, h4⟩ := guardOf_eq_ok_iff.mp hguard
    exact ⟨block, hblock, r.first, r.last, h1, h2, h3, h4, hfirst, hlast⟩
  · rintro ⟨block, hblock, first, last, h1, h2, h3, h4, hfirst, hlast⟩
    obtain ⟨r, hr, hguard⟩ := exists_mem_of_mapM hguards hblock
    cases hguard.symm.trans (guardOf_eq_ok_iff (r := ⟨first, last, handler⟩).mpr ⟨h1, h2, h3, h4⟩)
    exact ⟨_, ⟨hr, hfirst, hlast⟩, rfl⟩

theorem mem_returnPointsOf_iff {insns : Array Insn} :
    j ∈ returnPointsOf insns ↔ ∃ k call, insns[k]? = some call ∧ call.opcode = .jsr ∧ j = k + 1 := by
  simp only [returnPointsOf, List.mem_filterMap, Prod.exists, List.mem_zipIdx_iff_getElem?,
    Array.getElem?_toList, Option.ite_none_right_eq_some, Option.some.injEq]
  constructor
  · rintro ⟨call, k, hk, hjsr, rfl⟩
    exact ⟨k, call, hk, hjsr, rfl⟩
  · rintro ⟨k, call, hk, hjsr, rfl⟩
    exact ⟨call, k, hk, hjsr, rfl⟩

/-- The targets of an instruction are where control goes from it, handlers apart. -/
theorem leads_of_mem_targets (hg : ofMethod m = .ok g) (hi : m.insns[i]? = some insn)
    (h : .ok j ∈ g.targets i insn) : m.Leads (· ≠ .pseudo) i j := by
  obtain ⟨guards, -, hg⟩ := bind_eq_ok_iff.mp hg
  cases hg
  unfold targets at h
  split at h
  · -- A pseudo instruction, of whatever kind.
    rename_i hpseudo
    cases List.mem_singleton.mp h
    cases insn with
    | jump op target => exact .pass hi (Or.inr fun hne => hne hpseudo)
    | tableSwitch _ _ _ _ => exact nomatch hpseudo
    | lookupSwitch _ _ _ => exact nomatch hpseudo
    | _ => exact .next hi nofun nofun (hpseudo ▸ by decide) (hpseudo ▸ by decide) (hpseudo ▸ by decide)
  rename_i hpseudo
  split at h
  · rename_i op target
    split at h
    · rename_i hconditional
      rcases List.mem_cons.mp h with hnext | htarget
      · cases hnext
        exact .pass hi (Or.inl hconditional)
      · exact .jump hi hpseudo (locate_eq_ok_iff.mp (List.mem_singleton.mp htarget).symm)
    · exact .jump hi hpseudo (locate_eq_ok_iff.mp (List.mem_singleton.mp h).symm)
  · obtain ⟨l, hl, hlocate⟩ := List.mem_map.mp h
    exact .switch hi rfl hl (locate_eq_ok_iff.mp hlocate)
  · obtain ⟨l, hl, hlocate⟩ := List.mem_map.mp h
    exact .switch hi rfl hl (locate_eq_ok_iff.mp hlocate)
  · rename_i hjump htable hlookup
    have hnode : ¬ insn.isJumpNode ∧ ¬ insn.isSwitch := by
      cases insn with
      | jump op target => exact absurd rfl (hjump op target)
      | tableSwitch low high dflt labels => exact absurd rfl (htable low high dflt labels)
      | lookupSwitch dflt keys labels => exact absurd rfl (hlookup dflt keys labels)
      | _ => exact ⟨nofun, nofun⟩
    split at h
    · rename_i hret
      obtain ⟨k, hk, hok⟩ := List.mem_map.mp h
      cases hok
      obtain ⟨k, call, hcall, hjsr, rfl⟩ := mem_returnPointsOf_iff.mp hk
      exact .ret hi hnode.1 hnode.2 hret hcall hjsr
    · rename_i hret
      split at h
      · exact nomatch h
      · rename_i hleaves
        cases List.mem_singleton.mp h
        rw [Bool.or_eq_true, decide_eq_true_eq, not_or] at hleaves
        exact .next hi hnode.1 hnode.2 hret hleaves.1 hleaves.2

/-- **Where control goes is an edge of the graph.** -/
theorem edge_of_leads (hg : ofMethod m = .ok g) (h : m.Leads (· ≠ .pseudo) i j) : g.Edge i j := by
  have hmethod := method_of_ofMethod hg
  have hreturns : g.returnPoints = returnPointsOf m.insns := by
    obtain ⟨guards, -, hg⟩ := bind_eq_ok_iff.mp hg
    cases hg
    rfl
  cases h with
  | @jump _ op target hi hjumps hj =>
    refine .flow (hmethod ▸ hi) ?_
    have hlocate : locate g.method target = .ok j := hmethod ▸ locate_eq_ok_iff.mpr hj
    have hop : (Insn.jump op target).opcode ≠ .pseudo := hjumps
    unfold targets
    rw [if_neg hop, ← hlocate]
    simp only
    split
    · exact List.mem_cons_of_mem _ (List.mem_singleton_self _)
    · exact List.mem_singleton_self _
  | @pass op target hi hpass =>
    refine .flow (hmethod ▸ hi) ?_
    unfold targets
    by_cases hpseudo : (Insn.jump op target).opcode = .pseudo
    · rw [if_pos hpseudo]
      exact List.mem_singleton_self _
    · rw [if_neg hpseudo]
      simp only
      rw [if_pos (hpass.resolve_right fun hne => hne hpseudo)]
      exact List.mem_cons_self
  | @switch _ insn l hi hswitch hl hj =>
    refine .flow (hmethod ▸ hi) ?_
    have hlocate : locate g.method l = .ok j := hmethod ▸ locate_eq_ok_iff.mpr hj
    rw [← hlocate]
    cases insn with
    | tableSwitch low high dflt labels => exact List.mem_map_of_mem hl
    | lookupSwitch dflt keys labels => exact List.mem_map_of_mem hl
    | _ => exact nomatch hswitch
  | @ret k insn call hi hjump hswitch hret hcall hjsr =>
    refine .flow (hmethod ▸ hi) ?_
    have hpoint : k + 1 ∈ g.returnPoints :=
      hreturns ▸ mem_returnPointsOf_iff.mpr ⟨k, call, hcall, hjsr, rfl⟩
    have htargets : g.targets i insn = g.returnPoints.map .ok := by
      unfold targets
      rw [if_neg (hret ▸ by decide)]
      cases insn <;> first | exact absurd rfl hjump | exact absurd rfl hswitch | exact if_pos hret
    rw [htargets]
    exact List.mem_map_of_mem hpoint
  | @next insn hi hjump hswitch hret hathrow hreturn =>
    refine .flow (hmethod ▸ hi) ?_
    have htargets : g.targets i insn = [.ok (i + 1)] := by
      have hleaves : ¬ (insn.opcode = .athrow || insn.opcode.isReturn) := by
        rw [Bool.or_eq_true, decide_eq_true_eq, not_or]
        exact ⟨hathrow, hreturn⟩
      unfold targets
      rw [if_neg hret, if_neg hleaves]
      cases insn <;> first
        | exact absurd rfl hjump
        | exact absurd rfl hswitch
        | exact ite_self _
    rw [htargets]
    exact List.mem_singleton_self _
  | @guarded first last _ insn block hi hblock hstart hstop hhandler hfirst hlast =>
    exact .exception (h := ⟨j, caughtValue block.type⟩) (hmethod ▸ hi) ((mem_handlersAt_iff hg).mpr
      ⟨block, hblock, first, last, hstart, hstop, hhandler, rfl, hfirst, hlast⟩)

/-- **The edges of the graph of a method** are where control goes. -/
theorem edge_iff_leads (hg : ofMethod m = .ok g) : g.Edge i j ↔ m.Leads (· ≠ .pseudo) i j := by
  refine ⟨fun h => ?_, edge_of_leads hg⟩
  have hmethod := method_of_ofMethod hg
  cases h with
  | flow hi ht => exact leads_of_mem_targets hg (hmethod ▸ hi) ht
  | exception hi hh =>
    obtain ⟨block, hblock, first, last, hstart, hstop, hhandler, -, hfirst, hlast⟩ :=
      (mem_handlersAt_iff hg).mp hh
    exact .guarded (hmethod ▸ hi) hblock hstart hstop hhandler hfirst hlast

theorem reachable_iff_reaches (hg : ofMethod m = .ok g) : g.Reachable i ↔ m.Reaches i := by
  constructor
  · intro h
    induction h with
    | start => exact .refl
    | step _ hedge ih => exact ih.tail ((edge_iff_leads hg).mp hedge)
  · intro h
    induction h with
    | refl => exact .start
    | tail _ hleads ih => exact ih.step ((edge_iff_leads hg).mpr hleads)

end Graph

/-! ## The positions that have frames -/

namespace Flow

variable {owner : String} {m : Method} {frames : Array (Option Frame)} {i : Nat}

/-- **What control reaches has a frame**, and nothing else has one. -/
theorem exists_frame_iff_reaches (hcode : m.hasCode) (h : analyze owner m = .ok frames) :
    (∃ f, frames[i]? = some (some f)) ↔ m.Reaches i := by
  obtain ⟨g, entry, hg, -, -, hsol⟩ := solution_of_analyze hcode h
  rw [← Graph.reachable_iff_reaches hg]
  constructor
  · rintro ⟨f, hf⟩
    exact reachable_of_analyze hcode h hg hf
  · -- Along the control flow: every edge out of a position with a frame ends at one.
    intro hreach
    induction hreach with
    | start =>
      obtain ⟨first, hfirst, -⟩ := hsol.start
      exact ⟨first, framesAt_eq_some_iff.mp hfirst⟩
    | @step i j _ hedge ih =>
      obtain ⟨f, hf⟩ := ih
      obtain ⟨insn, after, hi, -, htargets, hhandlers⟩ :=
        hsol.insn i f (framesAt_eq_some_iff.mpr hf)
      cases hedge with
      | flow hi' ht =>
        cases hi.symm.trans hi'
        obtain ⟨k, next, hk, hnext, -⟩ := htargets _ ht
        cases hk
        exact ⟨next, framesAt_eq_some_iff.mp hnext⟩
      | exception _ hh =>
        obtain ⟨next, hnext, -⟩ := hhandlers _ hh
        exact ⟨next, framesAt_eq_some_iff.mp hnext⟩

/-- **The positions without a frame are those that control does not reach.** -/
theorem frame_none_iff_not_reaches (hcode : m.hasCode) (h : analyze owner m = .ok frames)
    (hi : i < m.insns.size) : frames[i]? = some none ↔ ¬ m.Reaches i := by
  obtain ⟨-, -, -, -, hsize, -⟩ := solution_of_analyze hcode h
  rw [← exists_frame_iff_reaches hcode h]
  have hget := Array.getElem?_eq_getElem (hsize ▸ hi : i < frames.size)
  rw [hget]
  cases frames[i] with
  | none => exact ⟨fun _ => nofun, fun _ => rfl⟩
  | some f => exact ⟨nofun, fun hnot => absurd ⟨f, rfl⟩ hnot⟩

end Flow

/-! ## A jump node that does not jump

The node at the first position is a jump with the code of a pseudo instruction. Only the node behind it is
reached, which leaves the method; its target is not. -/

namespace MarkedJump

def method : Method where
  access := 8
  name := "m"
  desc := "()V"
  maxStack := 0
  maxLocals := 0
  insns := #[.jump .pseudo ⟨"T", 0⟩, .plain ⟨0xb1⟩, .label ⟨"T", 0⟩, .plain ⟨0xb1⟩]
  tryCatch := []

def entry : Frame := ⟨#[], [], 0, none⟩

def frames : Array (Option Frame) := #[some entry, some entry, none, none]

theorem entryFrame_eq : Flow.entryFrame "C" method = .ok entry :=
  eq_ok_of_toOption (by decide +kernel)

theorem analyze_eq : analyze "C" method = .ok frames :=
  Flow.analyze_of_replay (g := ⟨method, [], []⟩) 4 rfl rfl entryFrame_eq (by decide +kernel)

end MarkedJump

namespace Flow

/-- The node behind the return is not reached. -/
theorem frame_none_iff_not_reaches_markedJump :
    analyze "C" MarkedJump.method = .ok MarkedJump.frames ∧ ¬ MarkedJump.method.Reaches 2 :=
  ⟨MarkedJump.analyze_eq,
    (frame_none_iff_not_reaches rfl MarkedJump.analyze_eq (by decide)).mp rfl⟩

/-- Were the target of every jump node a position that control goes to, then this one would be reached;
but it has no frame. -/
theorem marked_jump_not_taken :
    analyze "C" MarkedJump.method = .ok MarkedJump.frames ∧
      ¬ (MarkedJump.frames[2]? = some none ↔
        ¬ Relation.ReflTransGen (MarkedJump.method.Leads fun _ => True) 0 2) := by
  refine ⟨MarkedJump.analyze_eq, fun h => h.mp rfl ?_⟩
  have hfirst : MarkedJump.method.insns[0]? = some (.jump .pseudo ⟨"T", 0⟩) := rfl
  exact .single (.jump hfirst trivial (by decide))

end Flow

end StackMap
