import StackMap.Proofs.ClassFile.Encoding
import StackMap.Proofs.Outcome

/-!
# `Proofs.ClassFile.Build`: what the steps of a builder write

The bytes that a builder has collected are those of a list of entries, and the number that a step gives is
the place of its entry among theirs. Both sides of a class file count places: the builder before it writes
an entry, the reader when it has read one. They agree since a step only adds entries at the end, and takes as
many places for them as the reader will. A text is written once, and its number looked up from then on.

## Contents

* `At`, `NamesClass`, `NamesMember`: what stands at a number.
* `Ledger`, `Builder.Holds`: what a builder has been asked for, and what it has written.
* `Build.Writes`: what a step adds; closed under sequences and repetition.
* `writes_entryOf`, `writes_utf8`: the two steps that add entries.
* `writes_classRef`, …, `writes_invokeDynamic`: the steps that are made of them.
-/

namespace StackMap.ClassFile

open Build

variable {es : List Entry} {i : UInt16} {e : Entry}

/-! ## Numbers of entries -/

/-- **What stands at a number** of a pool. Numbers are kept in two bytes. -/
def At (es : List Entry) (i : UInt16) (e : Entry) : Prop :=
  ∃ k, i = (k + 1).toUInt16 ∧ (cells es)[k]? = some e

theorem At.append (h : At es i e) (es' : List Entry) : At (es ++ es') i e := by
  obtain ⟨k, hi, hk⟩ := h
  obtain ⟨hlt, -⟩ := List.getElem?_eq_some_iff.mp hk
  refine ⟨k, hi, ?_⟩
  rw [cells_append, List.getElem?_append_left hlt]
  exact hk

/-- A new entry stands behind those before it. -/
theorem at_last (es : List Entry) (e : Entry) :
    At (es ++ [e]) ((cells es).length + 1).toUInt16 e := by
  refine ⟨(cells es).length, rfl, ?_⟩
  have hfirst : (cells [e])[0]? = some e := by
    rw [cells, List.flatMap_cons, List.flatMap_nil, List.append_nil, Entry.cells]
    split <;> rfl
  rw [cells_append, List.getElem?_append_right (Nat.le_refl _), Nat.sub_self]
  exact hfirst

/-- The class with a name stands at a number. -/
def NamesClass (es : List Entry) (i : UInt16) (name : String) : Prop :=
  ∃ n : UInt16, At es i (.classRef n.toNat) ∧ At es n (.utf8 name)

theorem NamesClass.append {name : String} (h : NamesClass es i name) (es' : List Entry) :
    NamesClass (es ++ es') i name := by
  obtain ⟨n, hi, hn⟩ := h
  exact ⟨n, hi.append es', hn.append es'⟩

/-- A name and a descriptor stand at a number. -/
def NamesMember (es : List Entry) (i : UInt16) (name desc : String) : Prop :=
  ∃ n d : UInt16, At es i (.nameAndType n.toNat d.toNat) ∧ At es n (.utf8 name) ∧ At es d (.utf8 desc)

theorem NamesMember.append {name desc : String} (h : NamesMember es i name desc) (es' : List Entry) :
    NamesMember (es ++ es') i name desc := by
  obtain ⟨n, d, hi, hn, hd⟩ := h
  exact ⟨n, d, hi.append es', hn.append es', hd.append es'⟩

/-! ## The state of a builder -/

/-- **What a builder has been asked for**: places for entries that are no texts, texts, bootstrap methods,
and methods. -/
structure Ledger where
  places : Nat := 0
  texts : List String := []
  handles : List UInt16 := []
  bodies : List MethodBody := []

namespace Ledger

instance : Append Ledger :=
  ⟨fun a b => ⟨a.places + b.places, a.texts ++ b.texts, a.handles ++ b.handles, a.bodies ++ b.bodies⟩⟩

@[simp] theorem texts_append (a b : Ledger) : (a ++ b).texts = a.texts ++ b.texts := rfl
@[simp] theorem handles_append (a b : Ledger) : (a ++ b).handles = a.handles ++ b.handles := rfl
@[simp] theorem bodies_append (a b : Ledger) : (a ++ b).bodies = a.bodies ++ b.bodies := rfl

theorem append_assoc (a b c : Ledger) : a ++ b ++ c = a ++ (b ++ c) := by
  show Ledger.mk _ _ _ _ = Ledger.mk _ _ _ _
  rw [Ledger.mk.injEq]
  exact ⟨Nat.add_assoc _ _ _, List.append_assoc _ _ _, List.append_assoc _ _ _, List.append_assoc _ _ _⟩

theorem append_empty (a : Ledger) : a ++ {} = a := by
  show Ledger.mk _ _ _ _ = a
  rw [List.append_nil, List.append_nil, List.append_nil, Nat.add_zero]

theorem empty_append (a : Ledger) : {} ++ a = a := by
  show Ledger.mk _ _ _ _ = a
  rw [List.nil_append, List.nil_append, List.nil_append, Nat.zero_add]

/-- Several ledgers in one. -/
def join : List Ledger → Ledger
  | [] => {}
  | a :: l => a ++ join l

theorem texts_join (l : List Ledger) : (join l).texts = l.flatMap texts := by
  induction l with
  | nil => rfl
  | cons a l ih => rw [join, texts_append, ih, List.flatMap_cons]

theorem join_texts {ι : Type} (f : ι → List String) (l : List ι) :
    join (l.map fun x => { texts := f x }) = { texts := l.flatMap f } := by
  induction l with
  | nil => rfl
  | cons x l ih =>
    rw [List.map_cons, join, ih]
    rfl

end Ledger

/-- **What a builder has written**: its bytes are those of entries that fit, its next number is the one
behind their places, the numbers that it keeps, one for each text that has been asked for, are those of
their entries, and every other place has been asked for. -/
structure Builder.Holds (name : String) (b : Builder) (es : List Entry) (asked : Ledger) : Prop where
  name : b.name = name
  pool : b.pool.toList = es.flatMap Entry.bytes
  next : b.next = ((cells es).length + 1).toUInt16
  fits : ∀ e ∈ es, e.Fits
  known : ∀ s j, (s, j) ∈ b.texts → At es j (.utf8 s)
  nodup : (b.texts.map Prod.fst).Nodup
  texts : ∀ s, s ∈ b.texts.map Prod.fst ↔ s ∈ asked.texts
  count : (cells es).length = b.texts.length + asked.places
  handles : b.bootstrap = asked.handles
  bodies : b.methods = asked.bodies

theorem Builder.holds_start (name : String) : Builder.Holds name { name } [] {} where
  name := rfl
  pool := rfl
  next := rfl
  fits := fun _ he => absurd he List.not_mem_nil
  known := fun _ _ hs => absurd hs List.not_mem_nil
  nodup := List.nodup_nil
  texts := fun _ => Iff.rfl
  count := rfl
  handles := rfl
  bodies := rfl

namespace Build

/-! ## Steps -/

variable {name : String} {α β ι : Type}

/-- What holds of a pool and stays so. -/
def Kept (Q : List Entry → Ledger → Prop) : Prop :=
  ∀ {es asked}, Q es asked → ∀ es' asked', Q (es ++ es') (asked ++ asked')

/-- **What a step writes**: from any state it adds entries at the end, and what it has been asked for to
the ledger; its result then satisfies `Q`. -/
def Writes (name : String) (x : Build α) (asks : Ledger)
    (Q : α → List Entry → Ledger → Prop) : Prop :=
  ∀ b es asked, b.Holds name es asked →
    ∃ a b' es', x b = (a, b') ∧ b'.Holds name (es ++ es') (asked ++ asks) ∧
      Q a (es ++ es') (asked ++ asks)

theorem bind_of_run {x : Build α} {k : α → Build β} {b b' : Builder} {a : α} (h : x b = (a, b')) :
    (x >>= k) b = k a b' := by
  show (x b >>= fun p => k p.1 p.2) = k a b'
  rw [h]
  rfl

namespace Writes

variable {x : Build α} {k : α → Build β} {asks asks' : Ledger} {Q : α → List Entry → Ledger → Prop}
  {R : α → β → List Entry → Ledger → Prop}

theorem mono {Q' : α → List Entry → Ledger → Prop} (h : x.Writes name asks Q)
    (hQ : ∀ a es asked, Q a es asked → Q' a es asked) : x.Writes name asks Q' := by
  intro b es asked hb
  obtain ⟨a, b', es', hrun, hb', ha⟩ := h b es asked hb
  exact ⟨a, b', es', hrun, hb', hQ _ _ _ ha⟩

theorem pure (a : α) : Writes name (Pure.pure a : Build α) {} fun a' _ _ => a' = a := by
  intro b es asked hb
  rw [Ledger.append_empty]
  exact ⟨a, b, [], rfl, (List.append_nil es).symm ▸ hb, rfl⟩

/-- **Two steps in turn.** What holds of the first result still holds behind the second step. -/
theorem bind (h : x.Writes name asks Q) (hQ : ∀ a, Kept (Q a))
    (hk : ∀ a, (k a).Writes name asks' (R a)) :
    (x >>= k).Writes name (asks ++ asks')
      fun b es asked => ∃ a, Q a es asked ∧ R a b es asked := by
  intro b es asked hb
  obtain ⟨a, b', es', hrun, hb', ha⟩ := h b es asked hb
  obtain ⟨c, b'', es'', hrun', hb'', hc⟩ := hk a b' _ _ hb'
  rw [List.append_assoc, Ledger.append_assoc] at hb'' hc
  refine ⟨c, b'', es' ++ es'', (bind_of_run hrun).trans hrun', hb'', a, ?_, hc⟩
  rw [← List.append_assoc, ← Ledger.append_assoc]
  exact hQ a ha es'' asks'

/-- A step whose result is only handed on. -/
theorem map (h : x.Writes name asks Q) (f : α → β) :
    (x >>= fun a => Pure.pure (f a)).Writes name asks
      fun b es asked => ∃ a, b = f a ∧ Q a es asked := by
  intro b es asked hb
  obtain ⟨a, b', es', hrun, hb', ha⟩ := h b es asked hb
  exact ⟨f a, b', es', bind_of_run hrun, hb', a, rfl, ha⟩

/-- **A step for each element of a list.** -/
theorem mapM {f : ι → Build α} {asks : ι → Ledger} {Q : ι → α → List Entry → Ledger → Prop}
    {l : List ι} (h : ∀ x ∈ l, (f x).Writes name (asks x) (Q x))
    (hQ : ∀ x a, Kept (Q x a)) :
    (l.mapM f).Writes name (.join (l.map asks))
      fun as es asked => List.Forall₂ (fun x a => Q x a es asked) l as := by
  induction l with
  | nil =>
    rw [List.mapM_nil]
    refine (pure []).mono fun as es asked has => ?_
    rw [has]
    exact .nil
  | cons x l ih =>
    rw [List.forall_mem_cons] at h
    rw [List.mapM_cons]
    refine (h.1.bind (hQ x) fun a => (ih h.2).map (a :: ·)).mono ?_
    rintro _ es asked ⟨a, ha, as, rfl, has⟩
    exact .cons ha has

end Writes

/-! ## Entries -/

/-- The bytes of a new entry follow those before it. -/
theorem toList_pool_push {b : Builder} {tag : UInt8} {data : List UInt8}
    (hpool : b.pool.toList = es.flatMap Entry.bytes) (hbytes : tag :: data = e.bytes) :
    (b.pool.push tag ++ data).toList = (es ++ [e]).flatMap Entry.bytes := by
  rw [List.flatMap_append, List.flatMap_cons, List.flatMap_nil, List.append_nil, ← hpool, ← hbytes]
  simp

theorem cells_snoc (es : List Entry) (e : Entry) : cells (es ++ [e]) = cells es ++ e.cells := by
  rw [cells_append, cells, cells, List.flatMap_cons, List.flatMap_nil, List.append_nil]

/-- The next number is behind the places of a new entry. -/
theorem next_snoc (es : List Entry) (e : Entry) :
    ((cells es).length + 1).toUInt16 + e.cells.length.toUInt16 =
      ((cells (es ++ [e])).length + 1).toUInt16 := by
  rw [cells_snoc, List.length_append, Nat.add_right_comm]
  exact (UInt16.ofNat_add _ _).symm

/-- **A new entry**, which is no text. -/
theorem writes_entryOf {places : UInt16} {tag : UInt8} {data : List UInt8} (hfits : e.Fits)
    (hbytes : tag :: data = e.bytes) (hplaces : places = e.cells.length.toUInt16) :
    (entryOf places tag data).Writes name { places := e.cells.length }
      fun i es _ => At es i e := by
  intro b es asked hb
  refine ⟨b.next, _, [e], rfl, ?_, hb.next ▸ at_last es e⟩
  constructor
  case name => exact hb.name
  case pool => exact toList_pool_push hb.pool hbytes
  case next =>
    rw [← next_snoc, ← hplaces, ← hb.next]
  case fits =>
    rw [List.forall_mem_append, List.forall_mem_singleton]
    exact ⟨hb.fits, hfits⟩
  case known => exact fun s j hs => (hb.known s j hs).append [e]
  case nodup => exact hb.nodup
  case texts => simp [hb.texts]
  case count =>
    rw [cells_snoc, List.length_append, hb.count]
    exact Nat.add_assoc _ _ _
  case handles => simp [hb.handles]
  case bodies => simp [hb.bodies]

/-- **A text**, new or not. -/
theorem writes_utf8 {s : String} (hs : ModifiedUtf8.Plain s) :
    (utf8 s).Writes name { texts := [s] } fun i es _ => At es i (.utf8 s) := by
  intro b es asked hb
  cases hlookup : b.texts.lookup s with
  | some i =>
    -- The text is there; nothing changes.
    have hmem : (s, i) ∈ b.texts := mem_of_lookup hlookup
    have hrun : utf8 s b = (i, b) := by
      simp only [utf8, bind, StateT.bind, get, getThe, MonadStateOf.get, StateT.get, pure, hlookup]
      rfl
    refine ⟨i, b, [], hrun, ?_, ?_⟩
    all_goals rw [List.append_nil]
    · have hasked : s ∈ asked.texts := (hb.texts s).mp (List.mem_map_of_mem hmem)
      refine { hb with texts := fun s' => ?_, count := hb.count, handles := ?_, bodies := ?_ }
      · rw [hb.texts s', Ledger.texts_append, List.mem_append, List.mem_singleton]
        exact (or_iff_left_of_imp fun heq => heq ▸ hasked).symm
      · simp [hb.handles]
      · simp [hb.bodies]
    · exact hb.known s i hmem
  | none =>
    have hrun : utf8 s b = (b.next, { b with
        pool := b.pool.push 1 ++ (Entry.utf8 s).data
        next := b.next + 1
        texts := (s, b.next) :: b.texts }) := by
      simp only [utf8, bind, StateT.bind, get, getThe, MonadStateOf.get, StateT.get, pure, hlookup]
      rfl
    have hlast : At (es ++ [.utf8 s]) b.next (.utf8 s) := hb.next ▸ at_last es (.utf8 s)
    refine ⟨b.next, _, [.utf8 s], hrun, ?_, hlast⟩
    constructor
    case name => exact hb.name
    case pool => exact toList_pool_push hb.pool rfl
    case next =>
      rw [← next_snoc, ← hb.next]
      rfl
    case fits =>
      rw [List.forall_mem_append, List.forall_mem_singleton]
      exact ⟨hb.fits, hs⟩
    case known =>
      intro s' j hs'
      rcases List.mem_cons.mp hs' with heq | hs'
      · cases heq
        exact hlast
      · exact (hb.known s' j hs').append _
    case nodup =>
      rw [List.map_cons, List.nodup_cons]
      exact ⟨not_mem_of_lookup hlookup, hb.nodup⟩
    case texts =>
      intro s'
      rw [List.map_cons, List.mem_cons, hb.texts s', Ledger.texts_append, List.mem_append,
        List.mem_singleton, or_comm]
    case count =>
      rw [cells_snoc, List.length_append, hb.count, List.length_cons]
      exact Nat.add_right_comm _ _ _
    case handles => simp [hb.handles]
    case bodies => simp [hb.bodies]

/-! ## The steps of a builder -/

theorem toUInt16_toNat (n : UInt16) : n.toNat.toUInt16 = n := UInt16.ofNat_toNat

/-- A new entry of one place, which is no text. -/
theorem writes_entry {tag : UInt8} {data : List UInt8} (hfits : e.Fits) (hbytes : tag :: data = e.bytes)
    (hnarrow : e.cells = [e]) :
    (entry tag data).Writes name { places := 1 } fun i es _ => At es i e := by
  have hplaces : (1 : UInt16) = e.cells.length.toUInt16 := by
    rw [hnarrow]
    rfl
  have hentry : (entryOf 1 tag data).Writes name { places := e.cells.length }
      fun i es _ => At es i e := writes_entryOf hfits hbytes hplaces
  rw [hnarrow] at hentry
  exact hentry

/-- A new entry with one reference. -/
theorem writes_ref {tag : UInt8} {f : Nat → Entry} (n : UInt16) (hfits : (f n.toNat).Fits)
    (hbytes : (f n.toNat).bytes = tag :: b2 n.toNat.toUInt16) (hnarrow : (f n.toNat).cells = [f n.toNat]) :
    (entry tag (b2 n)).Writes name { places := 1 } fun i es _ => At es i (f n.toNat) := by
  refine writes_entry hfits ?_ hnarrow
  rw [hbytes, toUInt16_toNat]

/-- A new entry with two references. -/
theorem writes_refs {tag : UInt8} {f : Nat → Nat → Entry} (m n : UInt16)
    (hfits : (f m.toNat n.toNat).Fits)
    (hbytes : (f m.toNat n.toNat).bytes = tag :: (b2 m.toNat.toUInt16 ++ b2 n.toNat.toUInt16))
    (hnarrow : (f m.toNat n.toNat).cells = [f m.toNat n.toNat]) :
    (entry tag (b2 m ++ b2 n)).Writes name { places := 1 }
      fun i es _ => At es i (f m.toNat n.toNat) := by
  refine writes_entry hfits ?_ hnarrow
  rw [hbytes, toUInt16_toNat, toUInt16_toNat]

theorem writes_integer (v : Int32) :
    (integer v).Writes name { places := 1 } fun i es _ => At es i (.integer v.toUInt32.toNat) := by
  refine writes_entry v.toUInt32.toNat_lt ?_ rfl
  show _ = _ :: b4 v.toUInt32.toNat.toUInt32
  rw [Nat.toUInt32_eq, UInt32.ofNat_toNat]
  rfl

theorem writes_long (v : Int64) :
    (long v).Writes name { places := 2 } fun i es _ => At es i (.long v.toUInt64.toNat) := by
  refine writes_entryOf (e := .long v.toUInt64.toNat) v.toUInt64.toNat_lt ?_ rfl
  show _ = _ :: b8 v.toUInt64.toNat.toUInt64
  rw [Nat.toUInt64_eq, UInt64.ofNat_toNat]
  rfl

theorem writes_double (bits : UInt64) :
    (double bits).Writes name { places := 2 } fun i es _ => At es i (.double bits.toNat) := by
  refine writes_entryOf (e := .double bits.toNat) bits.toNat_lt ?_ rfl
  show _ = _ :: b8 bits.toNat.toUInt64
  rw [Nat.toUInt64_eq, UInt64.ofNat_toNat]
  rfl

theorem writes_methodHandle (kind : UInt8) (ref : UInt16) :
    (methodHandle kind ref).Writes name { places := 1 }
      fun i es _ => At es i (.methodHandle kind.toNat ref.toNat) := by
  refine writes_entry ⟨kind.toNat_lt, ref.toNat_lt⟩ ?_ rfl
  show _ = _ :: kind.toNat.toUInt8 :: b2 ref.toNat.toUInt16
  have hkind : kind.toNat.toUInt8 = kind := UInt8.ofNat_toNat
  rw [toUInt16_toNat, hkind]
  rfl

/-- A class. -/
theorem writes_classRef {s : String} (hs : ModifiedUtf8.Plain s) :
    (classRef s).Writes name { places := 1, texts := [s] } fun i es _ => NamesClass es i s := by
  refine ((writes_utf8 hs).bind (fun _ _ _ h es' _ => h.append es')
    fun n => writes_ref (f := .classRef) n n.toNat_lt rfl rfl).mono ?_
  rintro i es asked ⟨n, hn, hi⟩
  exact ⟨n, hi, hn⟩

/-- A string constant. -/
theorem writes_string {s : String} (hs : ModifiedUtf8.Plain s) :
    (string s).Writes name { places := 1, texts := [s] }
      fun i es _ => ∃ n : UInt16, At es n (.utf8 s) ∧ At es i (.string n.toNat) :=
  (writes_utf8 hs).bind (fun _ _ _ h es' _ => h.append es')
    fun n => writes_ref (f := .string) n n.toNat_lt rfl rfl

/-- A name and a descriptor. -/
theorem writes_nameAndType {s d : String} (hs : ModifiedUtf8.Plain s) (hd : ModifiedUtf8.Plain d) :
    (nameAndType s d).Writes name { places := 1, texts := [s, d] } fun i es _ => NamesMember es i s d := by
  refine ((writes_utf8 hs).bind (fun _ _ _ h es' _ => h.append es') fun n =>
    (writes_utf8 hd).bind (fun _ _ _ h es' _ => h.append es') fun d =>
      writes_refs (f := .nameAndType) n d ⟨n.toNat_lt, d.toNat_lt⟩ rfl rfl).mono ?_
  rintro i es asked ⟨n, hn, d, hd, hi⟩
  exact ⟨n, d, hi, hn, hd⟩

/-- A member of a class: a field or a method. -/
theorem writes_member {owner s d : String} (howner : ModifiedUtf8.Plain owner)
    (hs : ModifiedUtf8.Plain s) (hd : ModifiedUtf8.Plain d) {tag : UInt8} {f : Nat → Nat → Entry}
    (hf : ∀ m n : UInt16, (f m.toNat n.toNat).Fits ∧
      (f m.toNat n.toNat).bytes = tag :: (b2 m.toNat.toUInt16 ++ b2 n.toNat.toUInt16) ∧
      (f m.toNat n.toNat).cells = [f m.toNat n.toNat]) :
    (member tag owner s d).Writes name { places := 3, texts := [owner, s, d] } fun i es _ =>
      ∃ c, NamesClass es c owner ∧ ∃ m, NamesMember es m s d ∧ At es i (f c.toNat m.toNat) :=
  (writes_classRef howner).bind (fun _ _ _ h es' _ => h.append es') fun c =>
    (writes_nameAndType hs hd).bind (fun _ _ _ h es' _ => h.append es') fun m =>
      writes_refs (f := f) c m (hf c m).1 (hf c m).2.1 (hf c m).2.2

/-- **A call site**: its bootstrap method is the next one, and has been asked for. -/
theorem writes_invokeDynamic (handle : UInt16) {s d : String} (hs : ModifiedUtf8.Plain s)
    (hd : ModifiedUtf8.Plain d) :
    (invokeDynamic handle s d).Writes name { places := 2, texts := [s, d], handles := [handle] }
      fun i es asked => ∃ (k : Nat) (m : UInt16), asked.handles[k]? = some handle ∧
        NamesMember es m s d ∧ At es i (.invokeDynamic k.toUInt16.toNat m.toNat) := by
  intro b es asked hb
  -- The bootstrap method is added before anything is written.
  have hb' : Builder.Holds name { b with bootstrap := b.bootstrap ++ [handle] } es
      (asked ++ { handles := [handle] }) :=
    { hb with
      texts := by simp [hb.texts]
      count := hb.count
      handles := by simp [hb.handles]
      bodies := by simp [hb.bodies] }
  have hsteps : (do
      entry 18 (b2 b.bootstrap.length.toUInt16 ++ b2 (← nameAndType s d)) : Build UInt16).Writes name
      { places := 2, texts := [s, d] } fun i es _ => ∃ m, NamesMember es m s d ∧
        At es i (.invokeDynamic b.bootstrap.length.toUInt16.toNat m.toNat) :=
    (writes_nameAndType hs hd).bind (fun _ _ _ h es' _ => h.append es') fun m =>
      writes_refs (f := .invokeDynamic) _ m ⟨UInt16.toNat_lt _, m.toNat_lt⟩ rfl rfl
  obtain ⟨i, b', es', hrun, hholds, m, hm, hi⟩ := hsteps _ es _ hb'
  rw [Ledger.append_assoc] at hholds
  refine ⟨i, b', es', hrun, hholds, asked.handles.length, m, ?_, hm, hb.handles ▸ hi⟩
  show (asked.handles ++ [handle])[asked.handles.length]? = some handle
  rw [List.getElem?_append_right (Nat.le_refl _), Nat.sub_self]
  rfl

/-- A method is only noted. -/
theorem writes_addMethod (m : MethodBody) :
    (addMethod m).Writes name { bodies := [m] } fun _ _ _ => True := by
  intro b es asked hb
  refine ⟨(), { b with methods := b.methods ++ [m] }, [], rfl, ?_, trivial⟩
  rw [List.append_nil]
  exact { hb with
    texts := by simp [hb.texts]
    count := hb.count
    handles := by simp [hb.handles]
    bodies := by simp [hb.bodies] }

end Build

end StackMap.ClassFile
