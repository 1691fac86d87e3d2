import StackMap.ClassFile.Read
import StackMap.Proofs.ClassFile.Calls
import StackMap.Proofs.Outcome
import Mathlib.Control.Traversable.Basic
import Mathlib.Data.List.Dedup
import Mathlib.Data.List.Forall2

/-!
# `Proofs.ClassFile.RoundTrip`: class files that were built are read back

Whatever calls make a class file, reading it gives back what they were given, as long as everything fits its
field: the constant pool has an entry with the content of its call at each number that a call has given, and
the class has the methods of the calls, in order.

## Contents

* `build`, `Buildable`: a class file by its calls, and what has to fit.
* `exists_bytes`, `exists_build`: the layout of the file.
* `reads_readMethod`, `reads_readHeader`, `reads_attributes`: its parts are read back.
* `MethodBody.Rebuilt`, `rebuilt_of_readCode`: a method that was read back.
* `length_cells_eq`, `count_build`: both sides count the places of the pool alike.
* `build_round_trip`: the file as a whole.
-/

namespace StackMap.ClassFile

open Build Reader

/-! ## Class files by their calls -/

/-- **The class file of some calls**, and the numbers that they give. -/
def build (name : String) (calls : List Call) : List (Option UInt16) × List UInt8 :=
  StateT.run' (m := Id) (do
    let numbers ← calls.mapM Call.run
    return (numbers, ← Build.bytes)) { name }

/-- What some calls ask for. -/
def askedOf (calls : List Call) : Ledger := .join (calls.map Call.asks)

/-- What is written last: the class and its super class, and the texts that only the file itself needs. -/
def lastAsks (name : String) (bodies : List MethodBody) : Ledger where
  places := 2
  texts := [name, Class.rootName, "Code", "BootstrapMethods"] ++ bodies.flatMap fun m => [m.name, m.desc]

/-- **What a class file is asked for** as a whole. -/
def fileAsks (name : String) (calls : List Call) : Ledger :=
  askedOf calls ++ lastAsks name (askedOf calls).bodies

/-- **The number of places of the pool** of a class file: the first one, which is not used, those that have
been asked for, and one for each text. -/
def poolCount (name : String) (calls : List Call) : Nat :=
  1 + (fileAsks name calls).places + (fileAsks name calls).texts.dedup.length

/-- A row of the exception table. -/
def rowBytes (h : HandlerRow) : List UInt8 :=
  b2 h.start ++ (b2 h.stop ++ (b2 h.handler ++ b2 h.catchType))

/-- The data of the attribute with the code of a method. -/
def codeBytes (m : MethodBody) : List UInt8 :=
  b2 m.maxStack ++ (b2 m.maxLocals ++ (b4 m.code.length.toUInt32 ++ (m.code ++
    (b2 m.handlers.length.toUInt16 ++ (m.handlers.flatMap rowBytes ++ b2 0)))))

/-- **Everything fits its field**: the texts, the number of places of the pool, the numbers of methods and
of bootstrap methods, and of each method the rows of its exception table and the length of its code. -/
structure Buildable (name : String) (calls : List Call) : Prop where
  texts : ∀ s ∈ (fileAsks name calls).texts, ModifiedUtf8.Plain s
  places : poolCount name calls ≤ 65535
  methods : (askedOf calls).bodies.length ≤ 65535
  handles : (askedOf calls).handles.length ≤ 65535
  rows : ∀ m ∈ (askedOf calls).bodies, m.handlers.length ≤ 65535
  codes : ∀ m ∈ (askedOf calls).bodies, (codeBytes m).length < 0x100000000

instance (name : String) (calls : List Call) : Decidable (Buildable name calls) :=
  decidable_of_iff ((∀ s ∈ (fileAsks name calls).texts, ModifiedUtf8.Plain s) ∧
      poolCount name calls ≤ 65535 ∧ (askedOf calls).bodies.length ≤ 65535 ∧
      (askedOf calls).handles.length ≤ 65535 ∧ (∀ m ∈ (askedOf calls).bodies, m.handlers.length ≤ 65535) ∧
      ∀ m ∈ (askedOf calls).bodies, (codeBytes m).length < 0x100000000)
    ⟨fun ⟨texts, places, methods, handles, rows, codes⟩ => ⟨texts, places, methods, handles, rows, codes⟩,
      fun h => ⟨h.texts, h.places, h.methods, h.handles, h.rows, h.codes⟩⟩

/-! ## The layout of a class file -/

/-- A method with the numbers of its name and its descriptor. -/
abbrev NamedBody := MethodBody × UInt16 × UInt16

/-- The numbers that a class file refers to: its class and its super class, the names of the two attributes
that it has, and those of its methods. -/
structure FileRefs where
  this : UInt16
  super : UInt16
  code : UInt16
  table : UInt16
  named : List NamedBody

/-- The bytes of the methods. -/
def FileRefs.methods (refs : FileRefs) : List UInt8 :=
  refs.named.flatMap fun row => methodBytes row.1 row.2.1 row.2.2 refs.code

/-- **The layout of a class file.** -/
def fileBytes (count : UInt16) (pool : List UInt8) (refs : FileRefs) (handles : List UInt16) :
    List UInt8 :=
  b4 0xCAFEBABE ++ b2 0 ++ b2 52 ++ b2 count ++ pool ++ b2 0x21 ++ b2 refs.this ++ b2 refs.super ++
    b2 0 ++ b2 0 ++ b2 refs.named.length.toUInt16 ++ refs.methods ++ attributeBytes handles refs.table

/-- The numbers of a method stand for its name and its descriptor. -/
structure NamesBody (es : List Entry) (m : MethodBody) (row : NamedBody) : Prop where
  body : row.1 = m
  name : At es row.2.1 (.utf8 m.name)
  desc : At es row.2.2 (.utf8 m.desc)

/-- **The numbers of a class file** stand for what the file refers to. -/
structure NamesFile (es : List Entry) (name : String) (bodies : List MethodBody) (refs : FileRefs) :
    Prop where
  this : NamesClass es refs.this name
  super : NamesClass es refs.super Class.rootName
  code : At es refs.code (.utf8 "Code")
  table : At es refs.table (.utf8 "BootstrapMethods")
  bodies : List.Forall₂ (NamesBody es) bodies refs.named

theorem writes_names {name : String} {m : MethodBody} (hname : ModifiedUtf8.Plain m.name)
    (hdesc : ModifiedUtf8.Plain m.desc) :
    (do
      let n ← utf8 m.name
      return (m, n, ← utf8 m.desc) : Build NamedBody).Writes name { texts := [m.name, m.desc] }
      fun row es _ => NamesBody es m row := by
  refine ((writes_utf8 hname).bind (fun _ _ _ h es' _ => h.append es') fun n =>
    (writes_utf8 hdesc).map fun d => (m, n, d)).mono ?_
  rintro _ es asked ⟨n, hn, d, rfl, hd⟩
  exact ⟨rfl, hn, hd⟩

theorem writes_named {name : String} {bodies : List MethodBody}
    (h : ∀ s ∈ bodies.flatMap fun m => [m.name, m.desc], ModifiedUtf8.Plain s) :
    (bodies.mapM fun m => do
      let n ← utf8 m.name
      return (m, n, ← utf8 m.desc) : Build (List NamedBody)).Writes name
      { texts := bodies.flatMap fun m => [m.name, m.desc] }
      fun named es _ => List.Forall₂ (NamesBody es) bodies named := by
  rw [← Ledger.join_texts]
  refine Writes.mapM (fun m hm => ?_) fun m row es asked h es' asked' =>
    ⟨h.body, h.name.append es', h.desc.append es'⟩
  have hplain : ∀ s ∈ [m.name, m.desc], ModifiedUtf8.Plain s := fun s hs =>
    h s (List.mem_flatMap_of_mem hm hs)
  rw [List.forall_mem_cons, List.forall_mem_singleton] at hplain
  exact writes_names hplain.1 hplain.2

/-- **The file that a builder writes last**, and the numbers in it. -/
theorem exists_bytes {b : Builder} {name : String} {es : List Entry} {asked : Ledger}
    (hb : b.Holds name es asked)
    (htexts : ∀ s ∈ (lastAsks name asked.bodies).texts, ModifiedUtf8.Plain s) :
    ∃ b' es' refs, Build.bytes b = (fileBytes b'.next b'.pool.toList refs asked.handles, b') ∧
      b'.Holds name (es ++ es') (asked ++ lastAsks name asked.bodies) ∧
      NamesFile (es ++ es') name asked.bodies refs := by
  rw [lastAsks, List.forall_mem_append] at htexts
  obtain ⟨hfixed, hnames⟩ := htexts
  obtain ⟨hname, hroot, hcode, htable⟩ : ModifiedUtf8.Plain name ∧ ModifiedUtf8.Plain Class.rootName ∧
      ModifiedUtf8.Plain "Code" ∧ ModifiedUtf8.Plain "BootstrapMethods" := by simpa using hfixed
  obtain ⟨this, b₁, es₁, hrun₁, hb₁, hthis⟩ := writes_classRef hname b es asked hb
  obtain ⟨super, b₂, es₂, hrun₂, hb₂, hsuper⟩ := writes_classRef hroot b₁ _ _ hb₁
  obtain ⟨code, b₃, es₃, hrun₃, hb₃, hcode⟩ := writes_utf8 hcode b₂ _ _ hb₂
  obtain ⟨table, b₄, es₄, hrun₄, hb₄, htable⟩ := writes_utf8 htable b₃ _ _ hb₃
  have hmethods : b₄.methods = asked.bodies := by simp [hb₄.bodies]
  obtain ⟨named, b₅, es₅, hrun₅, hb₅, hnamed⟩ := writes_named hnames b₄ _ _ hb₄
  -- Nothing that was written is moved, so that every number still stands for the same entry.
  simp only [Ledger.append_assoc] at hb₅
  have hentries : es ++ es₁ ++ es₂ ++ es₃ ++ es₄ ++ es₅ = es ++ (es₁ ++ es₂ ++ es₃ ++ es₄ ++ es₅) := by
    simp only [List.append_assoc]
  rw [hentries] at hb₅ hnamed
  refine ⟨b₅, _, ⟨this, super, code, table, named⟩, ?_, hb₅, ?_, ?_, ?_, ?_, hnamed⟩
  · have hcount : b₅.methods.length = named.length := by
      rw [hb₅.bodies, ← hnamed.length_eq]
      simp
    have hhandles : b₅.bootstrap = asked.handles := by simp [hb₅.handles]
    have hget : ∀ b : Builder, (get : Build Builder) b = (b, b) := fun _ => rfl
    unfold Build.bytes
    rw [bind_of_run (hget b), hb.name, bind_of_run hrun₁, bind_of_run hrun₂, bind_of_run hrun₃,
      bind_of_run hrun₄, bind_of_run (hget b₄), hmethods, bind_of_run hrun₅, bind_of_run (hget b₅),
      hcount, hhandles]
    rfl
  all_goals rw [← hentries]
  · exact (((hthis.append es₂).append es₃).append es₄).append es₅
  · exact ((hsuper.append es₃).append es₄).append es₅
  · exact (hcode.append es₄).append es₅
  · exact htable.append es₅

/-! ## The methods of a class file -/

/-- The bytes of a table whose rows have one length. -/
theorem length_rows {ι : Type} {f : ι → List UInt8} {n : Nat} (h : ∀ x, (f x).length = n) (l : List ι) :
    (l.flatMap f).length = n * l.length := by
  induction l with
  | nil => rfl
  | cons x l ih =>
    rw [List.flatMap_cons, List.length_append, h, ih, List.length_cons, Nat.mul_succ, Nat.add_comm]

theorem length_codeBytes (m : MethodBody) :
    (codeBytes m).length = 12 + m.code.length + 8 * m.handlers.length := by
  have hb2 : ∀ n, (b2 n).length = 2 := fun _ => rfl
  have hb4 : ∀ n, (b4 n).length = 4 := fun _ => rfl
  have hrow : ∀ h, (rowBytes h).length = 8 := fun _ => rfl
  have hrows := length_rows hrow m.handlers
  simp only [codeBytes, List.length_append, hrows, hb2, hb4]
  omega

theorem methodBytes_eq (m : MethodBody) (name desc code : UInt16) :
    methodBytes m name desc code = b2 m.access ++ (b2 name ++ (b2 desc ++ (b2 1 ++
      (b2 code ++ (b4 (codeBytes m).length.toUInt32 ++ codeBytes m))))) := by
  have hrow : (fun h : HandlerRow => b2 h.start ++ b2 h.stop ++ b2 h.handler ++ b2 h.catchType) =
      rowBytes := by
    funext h
    simp only [rowBytes, List.append_assoc]
  unfold methodBytes
  rw [hrow, length_codeBytes]
  simp only [codeBytes, List.append_assoc]

/-- The raw form of a method. -/
def MethodBody.raw (m : MethodBody) : RawMethod := ⟨m.access.toNat, m.name, m.desc, [codeBytes m]⟩

/-- **A method is read back.** -/
theorem reads_readMethod {pool : Pool} {m : MethodBody} {name desc code : UInt16}
    (hname : pool.utf8 name.toNat = .ok m.name) (hdesc : pool.utf8 desc.toNat = .ok m.desc)
    (hcode : pool.utf8 code.toNat = .ok "Code") (hlength : (codeBytes m).length < 0x100000000) :
    (readMethod pool).Reads (methodBytes m name desc code) m.raw := by
  have hattribute : (readMethodAttribute pool (m.name ++ m.desc)).Reads
      (b2 code ++ (b4 (codeBytes m).length.toUInt32 ++ codeBytes m)) ("Code", codeBytes m) := by
    refine (reads_u2 code).bind ?_
    rw [hcode]
    exact .after (.pure _) ((reads_u4_of_lt hlength).bind ((reads_bytes rfl).map ("Code", ·)))
  have hattributes : ((readMethodAttribute pool (m.name ++ m.desc)).times 1).Reads
      (b2 code ++ (b4 (codeBytes m).length.toUInt32 ++ codeBytes m)) [("Code", codeBytes m)] :=
    hattribute.map fun a => [a]
  rw [methodBytes_eq]
  refine (reads_u2 _).bind ((reads_u2 _).bind (.after (.ofExceptIn hname) ?_))
  refine (reads_u2 _).bind (.after (.ofExceptIn hdesc) ((reads_u2 1).bind ?_))
  exact hattributes.map fun attributes =>
    RawMethod.mk m.access.toNat m.name m.desc ((attributes.filter (·.1 == "Code")).map (·.2))

/-! ## The attributes and the header of a class file -/

/-- The pool of a class file with its bootstrap methods, none of which has arguments. -/
def Pool.withHandles (pool : Pool) (handles : List UInt16) : Pool :=
  { pool with bootstrap := handles.map fun handle => ⟨handle.toNat, []⟩ }

theorem reads_readBootstrapMethods {handles : List UInt16} (h : handles.length ≤ 65535) :
    readBootstrapMethods.Reads
      (b2 handles.length.toUInt16 ++ handles.flatMap fun handle => b2 handle ++ b2 0)
      (handles.map fun handle => ⟨handle.toNat, []⟩) := by
  have hmethod : ∀ handle ∈ handles, (do
      let handle ← u2
      return ⟨handle, ← u2.times (← u2)⟩ : Reader BootstrapMethod).Reads (b2 handle ++ b2 0)
      ⟨handle.toNat, []⟩ := by
    intro handle _
    exact (reads_u2 handle).bind ((reads_u2 0).bind ((Reads.pure []).map (BootstrapMethod.mk handle.toNat)))
  exact (reads_u2_of_lt (Nat.lt_succ_of_le h)).bind (.times hmethod)

theorem reads_readAttributeName {pool : Pool} {name : String} {i : UInt16}
    (h : pool.utf8 i.toNat = .ok name) : (readAttributeName pool).Reads (b2 i) name := by
  have hindex : nameIndex.Reads (b2 i) i.toNat := reads_u2 i
  exact hindex.before (.ofExceptIn h)

/-- **The attributes of the class are read back**: their number, and the pool behind them. -/
theorem reads_attributes {pool : Pool} {handles : List UInt16} {table : UInt16}
    (hpool : pool.bootstrap = []) (htable : pool.utf8 table.toNat = .ok "BootstrapMethods")
    (hhandles : handles.length ≤ 65535) :
    ∃ (count : UInt16) (data : List UInt8), attributeBytes handles table = b2 count ++ data ∧
      (readClassAttributes pool count.toNat).Reads data (pool.withHandles handles) := by
  cases hempty : handles.isEmpty with
  | true =>
    refine ⟨0, [], ?_, ?_⟩
    · rw [attributeBytes, if_pos hempty, List.append_nil]
    · rw [List.isEmpty_iff] at hempty
      have hsame : pool.withHandles handles = pool := by
        rw [Pool.withHandles, hempty, List.map_nil, ← hpool]
      rw [hsame]
      exact .pure pool
  | false =>
    let data := b2 handles.length.toUInt16 ++ handles.flatMap fun handle => b2 handle ++ b2 0
    have hlength : data.length = 2 + 4 * handles.length := by
      have hrow : ∀ handle, (b2 handle ++ b2 0).length = 4 := fun _ => rfl
      rw [List.length_append, length_rows hrow]
      rfl
    refine ⟨1, b2 table ++ (b4 data.length.toUInt32 ++ data), ?_, ?_⟩
    · rw [hlength, attributeBytes, if_neg (by rw [hempty]; exact Bool.false_ne_true)]
      simp only [data, List.append_assoc]
    · have hwith : withAttribute pool "BootstrapMethods" data = .ok (pool.withHandles handles) := by
        rw [withAttribute, if_pos rfl, (reads_readBootstrapMethods hhandles).runOn]
        rfl
      have hattribute : (readClassAttribute pool).Reads (b2 table ++ (b4 data.length.toUInt32 ++ data))
          (pool.withHandles handles) :=
        (reads_readAttributeName htable).bind ((reads_u4_of_lt (by omega)).bind
          ((reads_bytes rfl).before (.liftM hwith)))
      exact hattribute.map fun pool => pool

/-- **What stands in front of the attributes is read back.** -/
theorem reads_readHeader {es : List Entry} {count : UInt16} {name : String}
    {refs : FileRefs} (hfits : ∀ e ∈ es, e.Fits) (hcount : count.toNat = (cells es).length + 1)
    (hthis : (poolOf es).className refs.this.toNat = .ok name)
    (hsuper : (poolOf es).className refs.super.toNat = .ok Class.rootName)
    (hlength : refs.named.length ≤ 65535)
    (hmethods : ∀ row ∈ refs.named, (readMethod (poolOf es)).Reads
      (methodBytes row.1 row.2.1 row.2.2 refs.code) row.1.raw) (attributes : UInt16) :
    readHeader.Reads (b4 0xCAFEBABE ++ (b2 0 ++ (b2 52 ++ (b2 count ++ es.flatMap Entry.bytes ++
      (b2 0x21 ++ (b2 refs.this ++ (b2 refs.super ++ (b2 0 ++ (b2 0 ++
        (b2 refs.named.length.toUInt16 ++ (refs.methods ++ b2 attributes)))))))))))
      ⟨poolOf es, 0, 52, 0x21, name, Class.rootName, [], [], refs.named.map fun row => row.1.raw,
        attributes.toNat⟩ := by
  -- The number zero would mean that there is no super class; no entry stands there.
  have hzero : refs.super.toNat ≠ 0 := by
    intro h
    rw [h] at hsuper
    exact nomatch hsuper
  refine (reads_u4 0xCAFEBABE).bind ?_
  rw [if_neg (by decide)]
  refine (reads_u2 0).bind ((reads_u2 52).bind ((reads_readPool hfits hcount).bind ?_))
  refine (reads_u2 0x21).bind ((reads_u2 refs.this).bind (.after (.ofExceptIn hthis) ?_))
  refine (reads_u2 refs.super).bind ?_
  rw [if_neg hzero]
  refine .after (.ofExceptIn hsuper) ((reads_u2 0).bind (.after (.pure []) ?_))
  refine (reads_u2 0).bind (.after (.pure []) ((reads_u2_of_lt (Nat.lt_succ_of_le hlength)).bind ?_))
  exact (Reads.times hmethods).bind ((reads_u2 attributes).map _)

/-! ## Methods that were read back -/

/-- A row of the exception table and the handler that was made of it. -/
structure HandlerRow.Rebuilt (row : HandlerRow) (block : TryCatch) : Prop where
  start : block.start = labelAt 0 row.start.toNat
  stop : block.stop = labelAt 0 row.stop.toNat
  handler : block.handler = labelAt 0 row.handler.toNat

/-- **A method that was read back**: all that it was given but the instructions, and a handler for each
row of the exception table. -/
structure MethodBody.Rebuilt (m : MethodBody) (r : Method) : Prop where
  access : r.access = m.access.toNat
  name : r.name = m.name
  desc : r.desc = m.desc
  maxStack : r.maxStack = m.maxStack.toNat
  maxLocals : r.maxLocals = m.maxLocals.toNat
  handlers : List.Forall₂ HandlerRow.Rebuilt m.handlers r.tryCatch

/-- The method without its code. -/
def MethodBody.blank (m : MethodBody) : Method :=
  ⟨m.access.toNat, m.name, m.desc, 0, 0, #[], []⟩

/-- A step that reads a value back leaves the rest to the next one. -/
theorem bind_ok_of_reads {α β : Type} {r : Reader α} {k : α → Reader β} {data rest : List UInt8}
    {offset : Nat} {a : α} {b : β} {c : Cursor} (h : r.Reads data a)
    (hok : (r >>= k) ⟨data ++ rest, offset⟩ = .ok (b, c)) :
    k a ⟨rest, offset + data.length⟩ = .ok (b, c) := by
  rwa [bind_of_ok (h rest offset)] at hok

theorem rebuilt_of_readHandler {pool : Pool} {row : HandlerRow} {rest : List UInt8} {offset : Nat}
    {a : TryCatch × List Int} {c : Cursor}
    (h : readHandler pool 0 ⟨rowBytes row ++ rest, offset⟩ = .ok (a, c)) :
    row.Rebuilt a.1 ∧ c.rest = rest := by
  unfold readHandler rowBytes at h
  simp only [List.append_assoc] at h
  replace h := bind_ok_of_reads (reads_u2 row.start) h
  replace h := bind_ok_of_reads (reads_u2 row.stop) h
  replace h := bind_ok_of_reads (reads_u2 row.handler) h
  replace h := bind_ok_of_reads (reads_u2 row.catchType) h
  -- The name of the exception is looked up in the pool and takes no bytes.
  split at h
  · cases h
    exact ⟨⟨rfl, rfl, rfl⟩, rfl⟩
  · cases htype : pool.className row.catchType.toNat with
    | error cause =>
      rw [htype] at h
      exact nomatch h
    | ok type =>
      rw [htype] at h
      cases h
      exact ⟨⟨rfl, rfl, rfl⟩, rfl⟩

theorem rebuilt_of_times {pool : Pool} {rows : List HandlerRow} {rest : List UInt8} {offset : Nat}
    {handlers : List (TryCatch × List Int)} {c : Cursor}
    (h : (readHandler pool 0).times rows.length ⟨rows.flatMap rowBytes ++ rest, offset⟩ =
      .ok (handlers, c)) :
    List.Forall₂ HandlerRow.Rebuilt rows (handlers.map (·.1)) := by
  induction rows generalizing offset handlers c with
  | nil =>
    cases h
    exact .nil
  | cons row rows ih =>
    rw [List.flatMap_cons, List.append_assoc] at h
    obtain ⟨a, mid, ha, h⟩ := bind_ok_iff.mp h
    obtain ⟨hrow, hrest⟩ := rebuilt_of_readHandler ha
    obtain ⟨as, last, has, h⟩ := bind_ok_iff.mp h
    cases h
    -- The first row has left the others to the rest of the loop.
    obtain ⟨mid, offset⟩ := mid
    cases hrest
    exact .cons hrow (ih has)

theorem exists_of_runOn {α : Type} {r : Reader α} {data : List UInt8} {a : α}
    (h : r.runOn data = .ok a) : ∃ c, r ⟨data, 0⟩ = .ok (a, c) := by
  unfold Reader.runOn at h
  split at h
  · rename_i c hc
    cases h
    exact ⟨c, hc⟩
  · exact nomatch h

/-- **What the reader of code accepts, it reads back.** -/
theorem rebuilt_of_readCode {pool : Pool} {m : MethodBody} {r : Method}
    (hcode : (codeBytes m).length < 0x100000000) (hrows : m.handlers.length ≤ 65535)
    (h : (readCode pool 0 m.blank).runOn (codeBytes m) = .ok r) : m.Rebuilt r := by
  rw [length_codeBytes] at hcode
  obtain ⟨c, h⟩ := exists_of_runOn h
  unfold readCode codeBytes at h
  replace h := bind_ok_of_reads (reads_u2 m.maxStack) h
  replace h := bind_ok_of_reads (reads_u2 m.maxLocals) h
  replace h := bind_ok_of_reads (reads_u4_of_lt (show m.code.length < 0x100000000 by omega)) h
  replace h := bind_ok_of_reads (reads_bytes rfl) h
  -- From here on the reader may fail; it does not, and what it gives is followed step by step.
  obtain ⟨placed, mid, hplaced, h⟩ := bind_ok_iff.mp h
  obtain ⟨-, rfl⟩ := liftM_ok_iff.mp hplaced
  replace h := bind_ok_of_reads (reads_u2_of_lt (Nat.lt_succ_of_le hrows)) h
  obtain ⟨handlers, mid, hhandlers, h⟩ := bind_ok_iff.mp h
  obtain ⟨-, last, -, h⟩ := bind_ok_iff.mp h
  cases hstray : strayRef? placed m.code.length
      (placed.flatMap (·.refs) ++ handlers.flatMap (·.2)) with
  | some offset =>
    simp only [hstray] at h
    exact nomatch h
  | none =>
    simp only [hstray] at h
    cases h
    exact ⟨rfl, rfl, rfl, rfl, rfl, rebuilt_of_times hhandlers⟩

theorem decodeMethod_raw {pool : Pool} {m : MethodBody} {r : Method}
    (h : (readCode pool 0 m.blank).runOn (codeBytes m) = .ok r) : decodeMethod pool m.raw = .ok r := by
  show decodeBlocks pool 0 [codeBytes m] m.blank = .ok r
  unfold decodeBlocks
  rw [h]
  rfl

/-! ## Class files as a whole -/

theorem exists_of_mem_named {es : List Entry} {bodies : List MethodBody} {named : List NamedBody}
    (h : List.Forall₂ (NamesBody es) bodies named) {row : NamedBody} (hrow : row ∈ named) :
    ∃ m ∈ bodies, NamesBody es m row := by
  induction h with
  | nil => exact absurd hrow List.not_mem_nil
  | cons hfirst _ ih =>
    rcases List.mem_cons.mp hrow with rfl | hrow
    · exact ⟨_, List.mem_cons_self, hfirst⟩
    · obtain ⟨m, hm, hnames⟩ := ih hrow
      exact ⟨m, List.mem_cons_of_mem _ hm, hnames⟩

/-- **A file with the layout of a class file is parsed**, if the code of its methods can be read. -/
theorem exists_parse_fileBytes {es : List Entry} {count : UInt16} {name : String}
    {bodies : List MethodBody} {refs : FileRefs} {handles : List UInt16} (hfits : ∀ e ∈ es, e.Fits)
    (hcount : count.toNat = (cells es).length + 1) (hrefs : NamesFile es name bodies refs)
    (hmethods : bodies.length ≤ 65535) (hhandles : handles.length ≤ 65535)
    (hrows : ∀ m ∈ bodies, m.handlers.length ≤ 65535)
    (hcodes : ∀ m ∈ bodies, (codeBytes m).length < 0x100000000)
    (hread : ∀ m ∈ bodies, ∃ r,
      (readCode ((poolOf es).withHandles handles) 0 m.blank).runOn (codeBytes m) = .ok r) :
    ∃ c, parse (fileBytes count (es.flatMap Entry.bytes) refs handles) = .ok c ∧ c.name = name ∧
      c.super = Class.rootName ∧ List.Forall₂ MethodBody.Rebuilt bodies c.methods := by
  have hsize : (cells es).length < 65535 := by
    have hlt := count.toNat_lt
    omega
  have hraws : bodies.map MethodBody.raw = refs.named.map (·.1.raw) := by
    refine List.forall₂_eq_eq_eq ▸ List.forall₂_map_left_iff.mpr (List.forall₂_map_right_iff.mpr ?_)
    exact hrefs.bodies.imp fun m row hrow => congrArg MethodBody.raw hrow.body.symm
  have hmethod : ∀ row ∈ refs.named, (readMethod (poolOf es)).Reads
      (methodBytes row.1 row.2.1 row.2.2 refs.code) row.1.raw := by
    intro row hrow
    obtain ⟨m, hm, rfl, hname, hdesc⟩ := exists_of_mem_named hrefs.bodies hrow
    exact reads_readMethod (hname.text hsize) (hdesc.text hsize) (hrefs.code.text hsize) (hcodes _ hm)
  have hlength : refs.named.length ≤ 65535 := by
    rwa [← hrefs.bodies.length_eq]
  have hbootstrap : (poolOf es).bootstrap = [] := rfl
  obtain ⟨attributes, data, hdata, hattributes⟩ :=
    reads_attributes hbootstrap (hrefs.table.text hsize) hhandles
  have hheader := reads_readHeader hfits hcount (hrefs.this.className hsize)
    (hrefs.super.className hsize) hlength hmethod attributes
  obtain ⟨methods, hdecoded, hrebuilt⟩ := exists_mapM_forall₂
    (f := fun m : MethodBody => decodeMethod ((poolOf es).withHandles handles) m.raw)
    (P := MethodBody.Rebuilt) (l := bodies) fun m hm => by
      obtain ⟨r, hr⟩ := hread m hm
      exact ⟨r, decodeMethod_raw hr, rebuilt_of_readCode (hcodes m hm) (hrows m hm) hr⟩
  -- The methods of the header are those of the builder, so that their code is decoded in order.
  rw [← hraws] at hheader
  have hmethods : (bodies.map MethodBody.raw).mapM (decodeMethod ((poolOf es).withHandles handles)) =
      .ok methods := by
    rw [List.mapM_map]
    exact hdecoded
  have hclass : readClass.Reads (_ ++ data) ⟨52, 0, 0x21, name, Class.rootName, [], [], methods⟩ :=
    hheader.bind (hattributes.before ((Reads.liftM hmethods).map _))
  rw [fileBytes, hdata]
  simp only [List.append_assoc] at hclass ⊢
  exact ⟨_, hclass.runOn, rfl, rfl, hrebuilt⟩

/-- **The file of some calls**: the entries of its pool, what the calls have left there, and the numbers
that the rest of the file refers to. -/
theorem exists_build {name : String} {calls : List Call}
    (htexts : ∀ s ∈ (fileAsks name calls).texts, ModifiedUtf8.Plain s) :
    ∃ (numbers : List (Option UInt16)) (b : Builder) (es : List Entry) (refs : FileRefs),
      build name calls = (numbers, fileBytes b.next b.pool.toList refs (askedOf calls).handles) ∧
      b.Holds name es (fileAsks name calls) ∧
      List.Forall₂ (fun call r => call.Written r es (askedOf calls)) calls numbers ∧
      NamesFile es name (askedOf calls).bodies refs := by
  rw [fileAsks, Ledger.texts_append, List.forall_mem_append] at htexts
  have hcalls : (calls.mapM Call.run).Writes name (askedOf calls)
      fun numbers es asked => List.Forall₂ (fun call r => call.Written r es asked) calls numbers := by
    refine Writes.mapM (fun call hcall => call.writes_run fun s hs => htexts.1 s ?_) Call.kept_written
    rw [askedOf, Ledger.texts_join, List.flatMap_map]
    exact List.mem_flatMap_of_mem hcall hs
  obtain ⟨numbers, b₁, es₁, hrun₁, hb₁, hwritten⟩ := hcalls _ _ _ (Builder.holds_start name)
  rw [Ledger.empty_append, List.nil_append] at hb₁ hwritten
  obtain ⟨b₂, es₂, refs, hrun₂, hb₂, hrefs⟩ := exists_bytes hb₁ htexts.2
  refine ⟨numbers, b₂, es₁ ++ es₂, refs, ?_, hb₂, ?_, hrefs⟩
  · have hrun : (do
        let numbers ← calls.mapM Call.run
        return (numbers, ← Build.bytes) : Build _) { name } = ((numbers, _), b₂) :=
      (bind_of_run hrun₁).trans (bind_of_run hrun₂)
    exact congrArg Prod.fst hrun
  · -- What the calls have left is not touched by what is written last.
    refine hwritten.imp fun call r hr => ?_
    have hkept := call.kept_written r hr es₂ {}
    rwa [Ledger.append_empty] at hkept

/-- **Both sides count alike**: the places of the entries, with the first one, are those of the pool. -/
theorem length_cells_eq {name : String} {calls : List Call} {b : Builder} {es : List Entry}
    (hb : b.Holds name es (fileAsks name calls)) : (cells es).length + 1 = poolCount name calls := by
  have htexts : b.texts.length = (fileAsks name calls).texts.dedup.length := by
    -- A builder knows each text once, and the texts that it knows are those it has been asked for.
    rw [← List.length_map (f := Prod.fst)]
    refine ((List.perm_ext_iff_of_nodup hb.nodup (List.nodup_dedup _)).mpr fun s => ?_).length_eq
    rw [hb.texts s, List.mem_dedup]
  rw [poolCount, hb.count, htexts]
  omega

theorem drop_fileBytes (count : UInt16) (pool : List UInt8) (refs : FileRefs) (handles : List UInt16) :
    ∃ rest, (fileBytes count pool refs handles).drop 8 = b2 count ++ pool ++ rest := by
  unfold fileBytes
  simp only [List.append_assoc]
  exact ⟨_, rfl⟩

/-- **The number of places that a class file gives**, in two bytes behind the first eight. -/
theorem count_build {name : String} {calls : List Call}
    (htexts : ∀ s ∈ (fileAsks name calls).texts, ModifiedUtf8.Plain s) :
    ∃ rest, (build name calls).2.drop 8 = b2 (poolCount name calls).toUInt16 ++ rest := by
  obtain ⟨numbers, b, es, refs, hbuild, hb, -, -⟩ := exists_build htexts
  obtain ⟨rest, hrest⟩ := drop_fileBytes b.next b.pool.toList refs (askedOf calls).handles
  rw [hbuild, hrest, hb.next, length_cells_eq hb, List.append_assoc]
  exact ⟨_, rfl⟩

/-- **A class file that was built is read back.** Its pool, which stands behind the first eight bytes, has
the content of each call at the number that the call has given. If the code of its methods can be read,
then so can the file: it gives the class of the builder with the methods of the calls, in order. -/
theorem build_round_trip {name : String} {calls : List Call} (h : Buildable name calls) :
    ∃ pool, readPool.runOn ((build name calls).2.drop 8) = .ok pool ∧
      List.Forall₂ (Call.Recorded (askedOf calls).handles pool) calls (build name calls).1 ∧
      ((∀ m ∈ (askedOf calls).bodies, ∃ r,
          (readCode (pool.withHandles (askedOf calls).handles) 0 m.blank).runOn (codeBytes m) = .ok r) →
        ∃ c, parse (build name calls).2 = .ok c ∧ c.name = name ∧ c.super = Class.rootName ∧
          List.Forall₂ MethodBody.Rebuilt (askedOf calls).bodies c.methods) := by
  obtain ⟨numbers, b, es, refs, hbuild, hb, hwritten, hrefs⟩ := exists_build h.texts
  have hsize : (cells es).length < 65535 := by
    have hplaces := h.places
    rwa [← length_cells_eq hb] at hplaces
  have hcount : b.next.toNat = (cells es).length + 1 := by
    rw [hb.next]
    exact UInt16.toNat_ofNat_of_lt' (Nat.succ_lt_succ hsize)
  rw [hbuild, hb.pool]
  refine ⟨poolOf es, ?_, ?_, fun hread => ?_⟩
  · obtain ⟨rest, hrest⟩ := drop_fileBytes b.next (es.flatMap Entry.bytes) refs (askedOf calls).handles
    rw [hrest]
    exact (reads_readPool hb.fits hcount).runOn_append rest
  · exact hwritten.imp fun call r hr => hr.recorded hsize h.handles
  · exact exists_parse_fileBytes hb.fits hcount hrefs h.methods h.handles h.rows h.codes hread

/-- The calls for a class with a number, a text, a call site and a method that guards its first
instruction. -/
def guarded : List Call :=
  [.long 7, .string "hello", .methodRef "Out" "print" "()V", .methodHandle 6 10,
    .invokeDynamic 11 "run" "()V",
    .method {
      access := 9, name := "main", desc := "()V", maxStack := 1, maxLocals := 0
      code := [0x00, 0xb1], handlers := [⟨0, 1, 1, 0⟩] }]

-- The reader of code runs on a given array, in whatever pool.
set_option maxRecDepth 10000 in
theorem build_round_trip_guarded :
    ∃ pool, readPool.runOn ((build "Guarded" guarded).2.drop 8) = .ok pool ∧
      List.Forall₂ (Call.Recorded [11] pool) guarded (build "Guarded" guarded).1 ∧
      ∃ c, parse (build "Guarded" guarded).2 = .ok c ∧ c.name = "Guarded" ∧ c.super = Class.rootName ∧
        List.Forall₂ MethodBody.Rebuilt (askedOf guarded).bodies c.methods := by
  have hbuildable : Buildable "Guarded" guarded := by decide +kernel
  obtain ⟨pool, hpool, hrecorded, hparse⟩ := build_round_trip hbuildable
  refine ⟨pool, hpool, hrecorded, hparse fun m hm => ?_⟩
  cases List.mem_singleton.mp hm
  exact ⟨_, rfl⟩

end StackMap.ClassFile
