import StackMap.ClassFile.Read
import StackMap.Proofs.ClassFile.Reader
import StackMap.Proofs.ClassFile.Resolution

/-!
# `Proofs.ClassFile.Header`: what stands in front of the attributes of a class

Every reader of a part of a class file up to the attributes of the class is steady.

## Contents

* `steady_readPool`, `steady_readField`, `steady_readMethod`: the parts.
* `steady_readHeader`: all of them in order.
-/

namespace StackMap.ClassFile

open Reader

theorem steady_readEntry (index : Nat) : (readEntry index).Steady := by
  unfold readEntry
  refine steady_u1.bind fun tag => ?_
  split
  case h_1 => exact steady_u2.bind fun _ => (steady_bytes _).bind fun _ => .pure _
  case h_18 => exact .throw ⟨_, rfl⟩
  all_goals first
    | exact steady_u2.bind fun _ => .pure _
    | exact steady_u4.bind fun _ => .pure _
    | exact steady_u2.bind fun _ => steady_u2.bind fun _ => .pure _
    | exact steady_u4.bind fun _ => steady_u4.bind fun _ => .pure _
    | exact steady_u1.bind fun _ => steady_u2.bind fun _ => .pure _

theorem steady_readEntries (places : Nat) (read : Array Entry) : (readEntries places read).Steady := by
  fun_induction readEntries places read with
  | case1 read => exact .pure _
  | case2 places read ihWide ih =>
    refine (steady_readEntry _).bind fun e => .ite ?_ (ih e)
    match places, ihWide e with
    | 0, _ => exact .pure _
    | _ + 1, ihWide => exact ihWide

theorem steady_readPool : readPool.Steady := by
  unfold readPool
  refine steady_u2.bind fun count => .ite (.pure _) ?_
  exact (steady_readEntries _ _).bind fun _ => .pure _

theorem steady_skipAttributes : skipAttributes.Steady := by
  unfold skipAttributes
  refine steady_u2.bind fun count => .bind (.times ?_ count) fun _ => .pure _
  exact (steady_skip 2).bind fun _ => steady_u4.bind steady_skip

theorem steady_utf8 (pool : Pool) (part : Context) (i : Nat) :
    (Reader.ofExceptIn part (pool.utf8 i)).Steady :=
  .ofExceptIn fun cause h => ⟨_, pool.refuses_utf8 i cause h⟩

theorem steady_className (pool : Pool) (part : Context) (i : Nat) :
    (Reader.ofExceptIn part (pool.className i)).Steady :=
  .ofExceptIn fun cause h => ⟨_, pool.refuses_className i cause h⟩

theorem steady_readField (pool : Pool) : (readField pool).Steady := by
  unfold readField
  refine steady_u2.bind fun access => steady_u2.bind fun i => ?_
  refine (steady_utf8 pool _ i).bind fun name => steady_u2.bind fun j => ?_
  refine (steady_utf8 pool _ j).bind fun desc => steady_skipAttributes.bind fun _ => ?_
  exact .pure _

theorem steady_readMethodAttribute (pool : Pool) (method : String) :
    (readMethodAttribute pool method).Steady := by
  unfold readMethodAttribute
  refine steady_u2.bind fun i => ?_
  split
  · exact .bind (.pure _) fun _ => steady_u4.bind fun n => (steady_bytes n).bind fun _ => .pure _
  · rename_i cause hcause
    exact .throw_bind ⟨_, pool.refuses_utf8 i cause hcause⟩

theorem steady_readMethod (pool : Pool) : (readMethod pool).Steady := by
  unfold readMethod
  refine steady_u2.bind fun access => steady_u2.bind fun i => ?_
  refine (steady_utf8 pool _ i).bind fun name => steady_u2.bind fun j => ?_
  refine (steady_utf8 pool _ j).bind fun desc => steady_u2.bind fun count => ?_
  exact ((steady_readMethodAttribute pool _).times count).bind fun _ => .pure _

/-- **Everything in front of the attributes of the class is read steadily.** -/
theorem steady_readHeader : readHeader.Steady := by
  unfold readHeader
  refine steady_u4.bind fun m => .ite (.throw_bind ⟨_, rfl⟩) ?_
  refine steady_u2.bind fun minor => steady_u2.bind fun major => ?_
  refine steady_readPool.bind fun pool => steady_u2.bind fun access => steady_u2.bind fun i => ?_
  refine (steady_className pool _ i).bind fun name => steady_u2.bind fun superIndex => ?_
  refine .ite_bind (.pure _) (steady_className pool _ _) fun super => steady_u2.bind fun count => ?_
  refine .bind (.times (steady_u2.bind fun i => steady_className pool _ i) count) fun interfaces => ?_
  refine steady_u2.bind fun count => ((steady_readField pool).times count).bind fun fields => ?_
  refine steady_u2.bind fun count => ((steady_readMethod pool).times count).bind fun raws => ?_
  exact steady_u2.bind fun attributes => .pure _

end StackMap.ClassFile
