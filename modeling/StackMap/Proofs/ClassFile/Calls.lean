import StackMap.Proofs.ClassFile.Build

/-!
# `Proofs.ClassFile.Calls`: calls of a builder and the entries that they leave

A class file is built by calls one after the other, each of which may use the numbers that earlier ones have
given. Whatever these calls are, each number stands for an entry with the content of its call: directly
for texts and numbers, and through further entries for everything else.

## Contents

* `Call`, `Call.run`: the calls of a builder.
* `Call.asks`: what they ask for.
* `Call.Written`, `Call.writes_run`: what a call leaves in the bytes.
* `Call.Recorded`, `Call.Written.recorded`: what is found at its number once the bytes have been read.
-/

namespace StackMap.ClassFile

open Build

/-- **Calls of a builder.** A double is given by its bits. -/
inductive Call where
  | utf8 (s : String)
  | classRef (name : String)
  | string (s : String)
  | integer (v : Int32)
  | long (v : Int64)
  | double (bits : UInt64)
  | nameAndType (name desc : String)
  | fieldRef (owner name desc : String)
  | methodRef (owner name desc : String)
  | methodHandle (kind : UInt8) (ref : UInt16)
  | invokeDynamic (handle : UInt16) (name desc : String)
  | method (m : MethodBody)
  deriving Repr, DecidableEq

namespace Call

/-- **The step of a call**, with the number that it gives. A method has none. -/
def run : Call → Build (Option UInt16)
  | utf8 s => do return some (← Build.utf8 s)
  | classRef name => do return some (← Build.classRef name)
  | string s => do return some (← Build.string s)
  | integer v => do return some (← Build.integer v)
  | long v => do return some (← Build.long v)
  | double bits => do return some (← Build.double bits)
  | nameAndType name desc => do return some (← Build.nameAndType name desc)
  | fieldRef owner name desc => do return some (← Build.fieldRef owner name desc)
  | methodRef owner name desc => do return some (← Build.methodRef owner name desc)
  | methodHandle kind ref => do return some (← Build.methodHandle kind ref)
  | invokeDynamic handle name desc => do return some (← Build.invokeDynamic handle name desc)
  | method m => do
    addMethod m
    return none

/-- What a call asks for. The texts of a method are written last. -/
def asks : Call → Ledger
  | utf8 s => { texts := [s] }
  | classRef s | string s => { places := 1, texts := [s] }
  | integer _ | methodHandle .. => { places := 1 }
  | long _ | double _ => { places := 2 }
  | nameAndType name desc => { places := 1, texts := [name, desc] }
  | fieldRef owner name desc | methodRef owner name desc => { places := 3, texts := [owner, name, desc] }
  | invokeDynamic handle name desc => { places := 2, texts := [name, desc], handles := [handle] }
  | method m => { bodies := [m] }

/-! ## What calls write -/

/-- **What a call leaves**: the number that it gives stands for its content. -/
def Written : Call → Option UInt16 → List Entry → Ledger → Prop
  | utf8 s, some i, es, _ => At es i (.utf8 s)
  | classRef name, some i, es, _ => NamesClass es i name
  | string s, some i, es, _ => ∃ n : UInt16, At es n (.utf8 s) ∧ At es i (.string n.toNat)
  | integer v, some i, es, _ => At es i (.integer v.toUInt32.toNat)
  | long v, some i, es, _ => At es i (.long v.toUInt64.toNat)
  | double bits, some i, es, _ => At es i (.double bits.toNat)
  | nameAndType name desc, some i, es, _ => NamesMember es i name desc
  | fieldRef owner name desc, some i, es, _ =>
    ∃ c, NamesClass es c owner ∧ ∃ m, NamesMember es m name desc ∧ At es i (.fieldRef c.toNat m.toNat)
  | methodRef owner name desc, some i, es, _ =>
    ∃ c, NamesClass es c owner ∧ ∃ m, NamesMember es m name desc ∧ At es i (.methodRef c.toNat m.toNat)
  | methodHandle kind ref, some i, es, _ => At es i (.methodHandle kind.toNat ref.toNat)
  | invokeDynamic handle name desc, some i, es, asked =>
    ∃ (k : Nat) (m : UInt16), asked.handles[k]? = some handle ∧ NamesMember es m name desc ∧
      At es i (.invokeDynamic k.toUInt16.toNat m.toNat)
  | method _, none, _, _ => True
  | _, _, _, _ => False

/-- What a call leaves stays there. -/
theorem kept_written (call : Call) (r : Option UInt16) : Kept (call.Written r) := by
  intro es asked h es' asked'
  cases r with
  | none =>
    cases call with
    | method m => trivial
    | _ => exact h
  | some i =>
    cases call with
    | utf8 s => exact At.append h es'
    | classRef name => exact NamesClass.append h es'
    | string s =>
      obtain ⟨n, hn, hi⟩ := h
      exact ⟨n, hn.append es', hi.append es'⟩
    | integer v => exact At.append h es'
    | long v => exact At.append h es'
    | double bits => exact At.append h es'
    | nameAndType name desc => exact NamesMember.append h es'
    | fieldRef owner name desc =>
      obtain ⟨c, hc, m, hm, hi⟩ := h
      exact ⟨c, hc.append es', m, hm.append es', hi.append es'⟩
    | methodRef owner name desc =>
      obtain ⟨c, hc, m, hm, hi⟩ := h
      exact ⟨c, hc.append es', m, hm.append es', hi.append es'⟩
    | methodHandle kind ref => exact At.append h es'
    | invokeDynamic handle name desc =>
      -- Later bootstrap methods come behind those that are there.
      obtain ⟨k, m, hk, hm, hi⟩ := h
      obtain ⟨hlt, -⟩ := List.getElem?_eq_some_iff.mp hk
      refine ⟨k, m, ?_, hm.append es', hi.append es'⟩
      show (asked.handles ++ asked'.handles)[k]? = some handle
      rwa [List.getElem?_append_left hlt]
    | method m => exact h

theorem writes_some {name : String} {x : Build UInt16} {asks : Ledger}
    {Q : UInt16 → List Entry → Ledger → Prop} {Q' : Option UInt16 → List Entry → Ledger → Prop}
    (h : x.Writes name asks Q) (hQ : ∀ i es asked, Q i es asked → Q' (some i) es asked) :
    (do return some (← x) : Build (Option UInt16)).Writes name asks Q' := by
  refine (h.map some).mono ?_
  rintro _ es asked ⟨i, rfl, hi⟩
  exact hQ i es asked hi

/-- **The step of a call writes what the call asks for.** -/
theorem writes_run {name : String} (call : Call) (hcall : ∀ s ∈ call.asks.texts, ModifiedUtf8.Plain s) :
    call.run.Writes name call.asks call.Written := by
  have hfield : ∀ m n : UInt16, (Entry.fieldRef m.toNat n.toNat).Fits ∧
      (Entry.fieldRef m.toNat n.toNat).bytes = 9 :: (b2 m.toNat.toUInt16 ++ b2 n.toNat.toUInt16) ∧
      (Entry.fieldRef m.toNat n.toNat).cells = [.fieldRef m.toNat n.toNat] :=
    fun m n => ⟨⟨m.toNat_lt, n.toNat_lt⟩, rfl, rfl⟩
  have hmethod : ∀ m n : UInt16, (Entry.methodRef m.toNat n.toNat).Fits ∧
      (Entry.methodRef m.toNat n.toNat).bytes = 10 :: (b2 m.toNat.toUInt16 ++ b2 n.toNat.toUInt16) ∧
      (Entry.methodRef m.toNat n.toNat).cells = [.methodRef m.toNat n.toNat] :=
    fun m n => ⟨⟨m.toNat_lt, n.toNat_lt⟩, rfl, rfl⟩
  cases call with
  | utf8 s =>
    have hs : ModifiedUtf8.Plain s := hcall s List.mem_cons_self
    exact writes_some (writes_utf8 hs) fun _ _ _ h => h
  | classRef s =>
    have hs : ModifiedUtf8.Plain s := hcall s List.mem_cons_self
    exact writes_some (writes_classRef hs) fun _ _ _ h => h
  | string s =>
    have hs : ModifiedUtf8.Plain s := hcall s List.mem_cons_self
    exact writes_some (writes_string hs) fun _ _ _ h => h
  | integer v => exact writes_some (writes_integer v) fun _ _ _ h => h
  | long v => exact writes_some (writes_long v) fun _ _ _ h => h
  | double bits => exact writes_some (writes_double bits) fun _ _ _ h => h
  | nameAndType s d =>
    obtain ⟨hs, hd⟩ : ModifiedUtf8.Plain s ∧ ModifiedUtf8.Plain d := by simpa [asks] using hcall
    exact writes_some (writes_nameAndType hs hd) fun _ _ _ h => h
  | fieldRef o s d =>
    obtain ⟨ho, hs, hd⟩ : ModifiedUtf8.Plain o ∧ ModifiedUtf8.Plain s ∧ ModifiedUtf8.Plain d := by
      simpa [asks] using hcall
    exact writes_some (writes_member ho hs hd hfield) fun _ _ _ h => h
  | methodRef o s d =>
    obtain ⟨ho, hs, hd⟩ : ModifiedUtf8.Plain o ∧ ModifiedUtf8.Plain s ∧ ModifiedUtf8.Plain d := by
      simpa [asks] using hcall
    exact writes_some (writes_member ho hs hd hmethod) fun _ _ _ h => h
  | methodHandle kind ref => exact writes_some (writes_methodHandle kind ref) fun _ _ _ h => h
  | invokeDynamic handle s d =>
    obtain ⟨hs, hd⟩ : ModifiedUtf8.Plain s ∧ ModifiedUtf8.Plain d := by simpa [asks] using hcall
    exact writes_some (writes_invokeDynamic handle hs hd) fun _ _ _ h => h
  | method m =>
    refine ((writes_addMethod m).map fun _ => none).mono ?_
    rintro _ es asked ⟨_, rfl, -⟩
    trivial

end Call

/-! ## What is found in a pool -/

section

variable {es : List Entry} {i : UInt16} {e : Entry} (hsize : (cells es).length < 65535)
include hsize

theorem At.get (h : At es i e) : (poolOf es).get i.toNat = .ok e := by
  obtain ⟨k, rfl, hk⟩ := h
  obtain ⟨hlt, -⟩ := List.getElem?_eq_some_iff.mp hk
  have hnumber : (k + 1).toUInt16.toNat = k + 1 := UInt16.toNat_ofNat_of_lt' (by
    show k + 1 < 65536
    omega)
  have hentry : (poolOf es).entries[k + 1]? = some e := by
    rw [poolOf, List.getElem?_toArray, List.getElem?_cons_succ]
    exact hk
  rw [hnumber, Pool.get, if_neg (Nat.succ_ne_zero k), hentry]

theorem At.text {s : String} (h : At es i (.utf8 s)) : (poolOf es).utf8 i.toNat = .ok s := by
  rw [Pool.utf8, h.get hsize]
  rfl

theorem NamesClass.className {name : String} (h : NamesClass es i name) :
    (poolOf es).className i.toNat = .ok name := by
  obtain ⟨n, hi, hn⟩ := h
  rw [Pool.className, hi.get hsize]
  exact hn.text hsize

theorem NamesMember.nameAndType {name desc : String} (h : NamesMember es i name desc) :
    (poolOf es).nameAndType i.toNat = .ok (name, desc) := by
  obtain ⟨n, d, hi, hn, hd⟩ := h
  rw [Pool.nameAndType, hi.get hsize]
  show (do
    let name ← (poolOf es).utf8 n.toNat
    return (name, ← (poolOf es).utf8 d.toNat)) = _
  rw [hn.text hsize, hd.text hsize]
  rfl

/-- A member is found through its class, its name and its descriptor. -/
theorem memberOf_eq {c m : UInt16} {owner name desc : String} (hc : NamesClass es c owner)
    (hm : NamesMember es m name desc) :
    (poolOf es).memberOf c.toNat m.toNat false = .ok ⟨owner, name, desc, false⟩ := by
  rw [Pool.memberOf, hc.className hsize, hm.nameAndType hsize]
  rfl

end

/-- **What is found at the number of a call**: an entry with the tag and the content of the call. What it
refers to resolves to what the call has been given, which `className`, `nameAndType` and `member` only do
at an entry with the right tag; a call site names its bootstrap method by the place among `handles`. -/
def Call.Recorded (handles : List UInt16) (pool : Pool) : Call → Option UInt16 → Prop
  | .utf8 s, some i => pool.get i.toNat = .ok (.utf8 s)
  | .classRef name, some i => pool.className i.toNat = .ok name
  | .string s, some i => (∃ n, pool.get i.toNat = .ok (.string n) ∧ pool.utf8 n = .ok s) ∧
      pool.loadable i.toNat = .ok (.string (Text.encode s.toList))
  | .integer v, some i => pool.get i.toNat = .ok (.integer v.toUInt32.toNat) ∧
      pool.loadable i.toNat = .ok (.int v)
  | .long v, some i => pool.get i.toNat = .ok (.long v.toUInt64.toNat) ∧
      pool.loadable i.toNat = .ok (.long v)
  | .double bits, some i => pool.get i.toNat = .ok (.double bits.toNat) ∧
      pool.loadable i.toNat = .ok (.double bits)
  | .nameAndType name desc, some i => pool.nameAndType i.toNat = .ok (name, desc)
  | .fieldRef owner name desc, some i => pool.member [9] i.toNat = .ok ⟨owner, name, desc, false⟩
  | .methodRef owner name desc, some i => pool.member [10] i.toNat = .ok ⟨owner, name, desc, false⟩
  | .methodHandle kind ref, some i => pool.get i.toNat = .ok (.methodHandle kind.toNat ref.toNat)
  | .invokeDynamic handle name desc, some i => ∃ k m, pool.get i.toNat = .ok (.invokeDynamic k m) ∧
      handles[k]? = some handle ∧ pool.nameAndType m = .ok (name, desc)
  | .method _, none => True
  | _, _ => False

/-- **What a call has written is found at its number.** -/
theorem Call.Written.recorded {call : Call} {r : Option UInt16} {es : List Entry} {asked : Ledger}
    (h : call.Written r es asked) (hsize : (cells es).length < 65535)
    (hhandles : asked.handles.length ≤ 65535) : call.Recorded asked.handles (poolOf es) r := by
  cases r with
  | none =>
    cases call with
    | method m => trivial
    | _ => exact h
  | some i =>
    cases call with
    | utf8 s => exact At.get hsize h
    | classRef name => exact NamesClass.className hsize h
    | string s =>
      obtain ⟨n, hn, hi⟩ := h
      refine ⟨⟨n.toNat, hi.get hsize, hn.text hsize⟩, ?_⟩
      rw [Pool.loadable, Pool.loadableWithin, Pool.loadWith, hi.get hsize]
      show (do return Constant.string (Text.encode (← (poolOf es).utf8 n.toNat).toList)) = _
      rw [hn.text hsize]
      rfl
    | integer v =>
      refine ⟨At.get hsize h, ?_⟩
      rw [Pool.loadable, Pool.loadableWithin, Pool.loadWith, At.get hsize h]
      show Except.ok (Constant.int (Int32.ofNat v.toUInt32.toNat)) = _
      simp [Int32.ofNat]
    | long v =>
      refine ⟨At.get hsize h, ?_⟩
      rw [Pool.loadable, Pool.loadableWithin, Pool.loadWith, At.get hsize h]
      show Except.ok (Constant.long (Int64.ofNat v.toUInt64.toNat)) = _
      simp [Int64.ofNat]
    | double bits =>
      refine ⟨At.get hsize h, ?_⟩
      rw [Pool.loadable, Pool.loadableWithin, Pool.loadWith, At.get hsize h]
      show Except.ok (Constant.double bits.toNat.toUInt64) = _
      rw [Nat.toUInt64_eq, UInt64.ofNat_toNat]
    | nameAndType name desc => exact NamesMember.nameAndType hsize h
    | fieldRef owner name desc =>
      obtain ⟨c, hc, m, hm, hi⟩ := h
      show (poolOf es).member [9] i.toNat = _
      rw [Pool.member, hi.get hsize]
      exact memberOf_eq hsize hc hm
    | methodRef owner name desc =>
      obtain ⟨c, hc, m, hm, hi⟩ := h
      show (poolOf es).member [10] i.toNat = _
      rw [Pool.member, hi.get hsize]
      exact memberOf_eq hsize hc hm
    | methodHandle kind ref => exact At.get hsize h
    | invokeDynamic handle name desc =>
      obtain ⟨k, m, hk, hm, hi⟩ := h
      -- The place among the bootstrap methods has been cut to two bytes, which it fits.
      obtain ⟨hlt, -⟩ := List.getElem?_eq_some_iff.mp hk
      have hnumber : k.toUInt16.toNat = k := UInt16.toNat_ofNat_of_lt' (by
        show k < 65536
        omega)
      rw [hnumber] at hi
      exact ⟨k, m.toNat, hi.get hsize, hk, hm.nameAndType hsize⟩
    | method m => exact h

end StackMap.ClassFile
