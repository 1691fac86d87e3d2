import StackMap.ClassFile.Cursor
import Mathlib.Data.List.Basic

/-!
# `Proofs.ClassFile.Reader`: laws of readers

Two kinds of laws hold for the readers of a class file because they hold for the primitive ones and are
kept by composition. `Ensures` is about outcomes: what is true of every result, and of every error.
`Takes` is about bytes: a reader that succeeds takes certain bytes, does the same whatever follows them,
and fails in front of fewer, in a way that can depend on where the bytes end. A steady reader fails there
because the file ends, and otherwise with some verdict on the file.

## Contents

* `bind_ok_iff`, `bind_error_iff`: composition of readers.
* `Ensures`: what results and errors satisfy.
* `Takes`: the bytes that a reading takes, and the errors in front of fewer.
* `Steady`: readers that report the end of the file, and give verdicts.
-/

namespace StackMap.ClassFile.Reader

variable {α β : Type} {r : Reader α} {k : α → Reader β}

/-! ## Composition -/

theorem bind_of_ok {c c' : Cursor} {a : α} (h : r c = .ok (a, c')) : (r >>= k) c = k a c' := by
  show (r c >>= fun p => k p.1 p.2) = k a c'
  rw [h]
  rfl

theorem bind_of_error {c : Cursor} {e : ClassError} (h : r c = .error e) :
    (r >>= k) c = .error e := by
  show (r c >>= fun p => k p.1 p.2) = .error e
  rw [h]
  rfl

theorem bind_ok_iff {c c' : Cursor} {b : β} :
    (r >>= k) c = .ok (b, c') ↔ ∃ a mid, r c = .ok (a, mid) ∧ k a mid = .ok (b, c') := by
  cases hr : r c with
  | error e =>
    rw [bind_of_error hr]
    constructor
    · exact fun h => nomatch h
    · rintro ⟨_, _, h, -⟩
      exact nomatch h
  | ok p =>
    obtain ⟨a, mid⟩ := p
    rw [bind_of_ok hr]
    constructor
    · exact fun h => ⟨a, mid, rfl, h⟩
    · rintro ⟨a', mid', heq, h⟩
      cases heq
      exact h

theorem bind_error_iff {c : Cursor} {e : ClassError} :
    (r >>= k) c = .error e ↔
      r c = .error e ∨ ∃ a mid, r c = .ok (a, mid) ∧ k a mid = .error e := by
  cases hr : r c with
  | error e' =>
    rw [bind_of_error hr]
    constructor
    · intro h
      cases h
      exact Or.inl rfl
    · rintro (h | ⟨_, _, h, -⟩)
      · cases h
        rfl
      · exact nomatch h
  | ok p =>
    rw [bind_of_ok hr]
    constructor
    · exact fun h => Or.inr ⟨p.1, p.2, rfl, h⟩
    · rintro (h | ⟨a, mid, heq, h⟩)
      · exact nomatch h
      · cases heq
        exact h

theorem liftM_error_iff {x : Except ClassError α} {c : Cursor} {e : ClassError} :
    (liftM x : Reader α) c = .error e ↔ x = .error e := by
  cases x with
  | error e' =>
    show (Except.error e' : Except ClassError (α × Cursor)) = .error e ↔ _
    rw [Except.error.injEq, Except.error.injEq]
  | ok a =>
    constructor
    · exact fun h => nomatch h
    · exact fun h => nomatch h

theorem liftM_ok_iff {x : Except ClassError α} {c c' : Cursor} {a : α} :
    (liftM x : Reader α) c = .ok (a, c') ↔ x = .ok a ∧ c' = c := by
  cases x with
  | error e =>
    constructor
    · exact fun h => nomatch h
    · exact fun h => nomatch h.1
  | ok b =>
    show (Except.ok (b, c) : Except ClassError _) = .ok (a, c') ↔ _
    simp only [Except.ok.injEq, Prod.mk.injEq, eq_comm]

theorem bytes_apply (n : Nat) (c : Cursor) :
    bytes n c = if (c.rest.take n).length = n then .ok (c.rest.take n, ⟨c.rest.drop n, c.offset + n⟩)
      else .error ⟨[], .truncated n c.offset c.rest.length⟩ := by
  unfold bytes
  simp only [List.splitAt_eq]
  rw [bind_of_ok (show (get : Reader Cursor) c = .ok (c, c) from rfl)]
  split <;> rfl

/-! ## Outcomes -/

/-- **What outcomes satisfy**: every result satisfies `Q`, and the cause of every error satisfies `E`. -/
def Ensures (Q : α → Prop) (E : FormatError → Prop) (r : Reader α) : Prop :=
  ∀ c, match r c with
    | .ok (a, _) => Q a
    | .error e => E e.cause

namespace Ensures

variable {Q : α → Prop} {R : β → Prop} {E E' : FormatError → Prop}

theorem intro (hok : ∀ c a c', r c = .ok (a, c') → Q a)
    (herr : ∀ c e, r c = .error e → E e.cause) : r.Ensures Q E := by
  intro c
  cases hr : r c with
  | ok p => exact hok c p.1 p.2 hr
  | error e => exact herr c e hr

theorem of_ok (h : r.Ensures Q E) {c c' : Cursor} {a : α} (hr : r c = .ok (a, c')) : Q a := by
  have hc := h c
  rw [hr] at hc
  exact hc

theorem of_error (h : r.Ensures Q E) {c : Cursor} {e : ClassError} (hr : r c = .error e) :
    E e.cause := by
  have hc := h c
  rw [hr] at hc
  exact hc

theorem weaken (h : r.Ensures Q E) (hE : ∀ cause, E cause → E' cause) : r.Ensures Q E' :=
  intro (fun _ _ _ hr => h.of_ok hr) fun _ _ hr => hE _ (h.of_error hr)

theorem pure {a : α} (h : Q a) : Ensures Q E (Pure.pure a) := fun _ => h

theorem throw {e : ClassError} (h : E e.cause) : Ensures Q E (MonadExcept.throw e : Reader α) :=
  fun _ => h

theorem bind (h : r.Ensures Q E) (hk : ∀ a, Q a → (k a).Ensures R E) : (r >>= k).Ensures R E := by
  refine intro (fun c b c' hb => ?_) fun c e he => ?_
  · obtain ⟨a, mid, ha, hb⟩ := bind_ok_iff.mp hb
    exact (hk a (h.of_ok ha)).of_ok hb
  · rcases bind_error_iff.mp he with he | ⟨a, mid, ha, he⟩
    · exact h.of_error he
    · exact (hk a (h.of_ok ha)).of_error he

theorem throw_bind {e : ClassError} (h : E e.cause) :
    ((MonadExcept.throw e : Reader α) >>= k).Ensures R E := fun _ => h

theorem ite {p : Prop} [Decidable p] {r' : Reader α} (h : p → r.Ensures Q E)
    (h' : ¬ p → r'.Ensures Q E) : (if p then r else r').Ensures Q E := by
  split
  · exact h ‹_›
  · exact h' ‹_›

theorem ofExceptIn {part : Context} {x : Except FormatError α} (hok : ∀ a, x = .ok a → Q a)
    (herr : ∀ cause, x = .error cause → E cause) : (ofExceptIn part x).Ensures Q E := by
  cases x with
  | ok a => exact pure (hok a rfl)
  | error cause => exact throw (herr cause rfl)

theorem ofExcept {x : Except FormatError α} (hok : ∀ a, x = .ok a → Q a)
    (herr : ∀ cause, x = .error cause → E cause) : (ofExcept x).Ensures Q E := by
  cases x with
  | ok a => exact pure (hok a rfl)
  | error cause => exact throw (herr cause rfl)

theorem liftM {x : Except ClassError α} (hok : ∀ a, x = .ok a → Q a)
    (herr : ∀ e, x = .error e → E e.cause) : (MonadLiftT.monadLift x : Reader α).Ensures Q E := by
  cases x with
  | ok a => exact pure (hok a rfl)
  | error e => exact throw (herr e rfl)

theorem times (h : r.Ensures Q E) (n : Nat) : (r.times n).Ensures (∀ a ∈ ·, Q a) E := by
  induction n with
  | zero => exact pure (fun _ ha => nomatch ha)
  | succ n ih =>
    refine h.bind fun a ha => ih.bind fun l hl => pure ?_
    exact List.forall_mem_cons.mpr ⟨ha, hl⟩

theorem of_runOn_ok (h : r.Ensures Q E) {data : List UInt8} {a : α} (ha : r.runOn data = .ok a) :
    Q a := by
  unfold Reader.runOn at ha
  split at ha
  · rename_i hr
    cases ha
    exact h.of_ok hr
  · exact nomatch ha

theorem of_runOn_error (h : r.Ensures Q E) {data : List UInt8} {e : ClassError}
    (he : r.runOn data = .error e) : E e.cause := by
  unfold Reader.runOn at he
  split at he
  · exact nomatch he
  · rename_i hr
    cases he
    exact h.of_error hr

end Ensures

section

variable {E : FormatError → Prop} (hE : ∀ need offset left, E (.truncated need offset left))

include hE

theorem ensures_u1 : u1.Ensures (fun _ => True) E := by
  rintro ⟨rest, offset⟩
  match rest with
  | _ :: _ => trivial
  | [] => exact hE _ _ _

theorem ensures_u2 : u2.Ensures (fun _ => True) E := by
  rintro ⟨rest, offset⟩
  match rest with
  | _ :: _ :: _ => trivial
  | [_] => exact hE _ _ _
  | [] => exact hE _ _ _

theorem ensures_u4 : u4.Ensures (fun _ => True) E := by
  rintro ⟨rest, offset⟩
  match rest with
  | _ :: _ :: _ :: _ :: _ => trivial
  | [_, _, _] => exact hE _ _ _
  | [_, _] => exact hE _ _ _
  | [_] => exact hE _ _ _
  | [] => exact hE _ _ _

theorem ensures_s1 : s1.Ensures (fun _ => True) E := (ensures_u1 hE).bind fun _ _ => .pure trivial

theorem ensures_s2 : s2.Ensures (fun _ => True) E := (ensures_u2 hE).bind fun _ _ => .pure trivial

theorem ensures_s4 : s4.Ensures (fun _ => True) E := (ensures_u4 hE).bind fun _ _ => .pure trivial

theorem ensures_bytes (n : Nat) : (bytes n).Ensures (fun _ => True) E := by
  intro c
  rw [bytes_apply]
  by_cases hlength : (c.rest.take n).length = n
  · rw [if_pos hlength]
    trivial
  · rw [if_neg hlength]
    exact hE _ _ _

theorem ensures_skip (n : Nat) : (skip n).Ensures (fun _ => True) E :=
  (ensures_bytes hE n).bind fun _ _ => .pure trivial

end

/-! ## Bytes -/

/-- **The bytes that a reading takes** from an offset on: whatever follows them, it gives `a` and leaves
what follows. In front of fewer it fails, with an error that satisfies `P` at the offset where the bytes
end. -/
structure Takes (P : Nat → ClassError → Prop) (r : Reader α) (used : List UInt8) (offset : Nat)
    (a : α) : Prop where
  whole : ∀ rest, r ⟨used ++ rest, offset⟩ = .ok (a, ⟨rest, offset + used.length⟩)
  cut : ∀ n < used.length, ∃ e, r ⟨used.take n, offset⟩ = .error e ∧ P (offset + n) e

namespace Takes

variable {P Q : Nat → ClassError → Prop} {used : List UInt8} {offset : Nat} {a : α} {b : β}

theorem mono (h : r.Takes P used offset a)
    (hPQ : ∀ n < used.length, ∀ e, P (offset + n) e → Q (offset + n) e) :
    r.Takes Q used offset a where
  whole := h.whole
  cut := by
    intro n hn
    obtain ⟨e, he, hP⟩ := h.cut n hn
    exact ⟨e, he, hPQ n hn e hP⟩

theorem pure : (Pure.pure a : Reader α).Takes P [] offset a where
  whole _ := rfl
  cut _ hn := nomatch hn

theorem liftM {x : Except ClassError α} (h : x = .ok a) :
    (MonadLiftT.monadLift x : Reader α).Takes P [] offset a where
  whole _ := liftM_ok_iff.mpr ⟨h, rfl⟩
  cut _ hn := nomatch hn

/-- The rest starts behind the bytes that are taken. -/
theorem offset_eq {c c' : Cursor} (h : r.Takes P used c.offset a) (hr : r c = .ok (a, c'))
    (hrest : c.rest = used ++ c'.rest) : c'.offset = c.offset + used.length := by
  have hwhole := h.whole c'.rest
  rw [← hrest, hr] at hwhole
  injection hwhole with hwhole
  exact congrArg (·.2.offset) hwhole

/-- **Readings one behind the other** take their bytes one behind the other. -/
theorem bind {used' : List UInt8} (h : r.Takes P used offset a)
    (hk : (k a).Takes P used' (offset + used.length) b) :
    (r >>= k).Takes P (used ++ used') offset b where
  whole := by
    intro rest
    rw [List.append_assoc, bind_of_ok (h.whole _), hk.whole, List.length_append, Nat.add_assoc]
  cut := by
    intro n hn
    by_cases hlt : n < used.length
    · -- The first reading fails.
      obtain ⟨e, he, hP⟩ := h.cut n hlt
      rw [List.take_append_of_le_length (Nat.le_of_lt hlt)]
      exact ⟨e, bind_of_error he, hP⟩
    · -- The first one has its bytes.
      have hle : used.length ≤ n := Nat.not_lt.mp hlt
      rw [List.length_append] at hn
      obtain ⟨e, he, hP⟩ := hk.cut (n - used.length) (by omega)
      rw [Nat.add_assoc, Nat.add_sub_cancel' hle] at hP
      refine ⟨e, ?_, hP⟩
      rw [List.take_append, List.take_of_length_le hle, bind_of_ok (h.whole _)]
      exact he

end Takes

/-- The error says that the file ends. -/
def Ends (_ : Nat) (e : ClassError) : Prop := e.cause.kind? = some .truncated

/-- The cause of an error is a verdict on the file. -/
def Verdict (cause : FormatError) : Prop := ∃ kind, cause.kind? = some kind

theorem verdict_truncated (need offset left : Nat) : Verdict (.truncated need offset left) := ⟨_, rfl⟩

/-- **Steady readers**: a reading that succeeds takes some of the bytes, and in front of fewer the error
is that the file ends. A reading that fails gives a verdict on the file. -/
structure Steady (r : Reader α) : Prop where
  takes : ∀ c a c', r c = .ok (a, c') →
    ∃ used, c.rest = used ++ c'.rest ∧ r.Takes Ends used c.offset a
  ensures : r.Ensures (fun _ => True) Verdict

namespace Steady

theorem pure (a : α) : (Pure.pure a : Reader α).Steady where
  takes := by
    intro c a' c' h
    cases h
    exact ⟨[], rfl, Takes.pure⟩
  ensures := .pure trivial

theorem throw {e : ClassError} (h : Verdict e.cause) : (MonadExcept.throw e : Reader α).Steady where
  takes _ _ _ h := nomatch h
  ensures := .throw h

theorem throw_bind {e : ClassError} (h : Verdict e.cause) :
    ((MonadExcept.throw e : Reader α) >>= k).Steady where
  takes _ _ _ h := nomatch h
  ensures := .throw_bind h

theorem bind (hr : r.Steady) (hk : ∀ a, (k a).Steady) : (r >>= k).Steady where
  takes := by
    intro c b c' h
    obtain ⟨a, mid, ha, hb⟩ := bind_ok_iff.mp h
    obtain ⟨used, hrest, htakes⟩ := hr.takes c a mid ha
    obtain ⟨used', hrest', htakes'⟩ := (hk a).takes mid b c' hb
    rw [htakes.offset_eq ha hrest] at htakes'
    exact ⟨used ++ used', by rw [hrest, hrest', List.append_assoc], htakes.bind htakes'⟩
  ensures := hr.ensures.bind fun a _ => (hk a).ensures

theorem ofExceptIn {part : Context} {x : Except FormatError α}
    (h : ∀ cause, x = .error cause → Verdict cause) : (ofExceptIn part x).Steady := by
  cases x with
  | ok a => exact pure a
  | error cause => exact throw (h cause rfl)

theorem times (h : r.Steady) (n : Nat) : (r.times n).Steady := by
  induction n with
  | zero => exact pure _
  | succ n ih => exact h.bind fun a => ih.bind fun l => pure _

theorem ite {p : Prop} [Decidable p] {r' : Reader α} (h : r.Steady) (h' : r'.Steady) :
    (if p then r else r').Steady := by
  split
  · exact h
  · exact h'

theorem ite_bind {p : Prop} [Decidable p] {r' : Reader α} (h : r.Steady) (h' : r'.Steady)
    (hk : ∀ a, (k a).Steady) : (if p then r >>= k else r' >>= k).Steady :=
  (h.bind hk).ite (h'.bind hk)

end Steady

theorem steady_u1 : u1.Steady := by
  refine ⟨?_, ensures_u1 verdict_truncated⟩
  rintro ⟨rest, offset⟩ v c' h
  match rest, h with
  | a :: rest, h =>
    cases h
    refine ⟨[a], rfl, fun _ => rfl, fun n hn => ?_⟩
    match n, hn with
    | 0, _ => exact ⟨_, rfl, rfl⟩

theorem steady_u2 : u2.Steady := by
  refine ⟨?_, ensures_u2 verdict_truncated⟩
  rintro ⟨rest, offset⟩ v c' h
  match rest, h with
  | a :: b :: rest, h =>
    cases h
    refine ⟨[a, b], rfl, fun _ => rfl, fun n hn => ?_⟩
    match n, hn with
    | 0, _ => exact ⟨_, rfl, rfl⟩
    | 1, _ => exact ⟨_, rfl, rfl⟩

theorem steady_u4 : u4.Steady := by
  refine ⟨?_, ensures_u4 verdict_truncated⟩
  rintro ⟨rest, offset⟩ v c' h
  match rest, h with
  | a :: b :: c :: d :: rest, h =>
    cases h
    refine ⟨[a, b, c, d], rfl, fun _ => rfl, fun n hn => ?_⟩
    match n, hn with
    | 0, _ => exact ⟨_, rfl, rfl⟩
    | 1, _ => exact ⟨_, rfl, rfl⟩
    | 2, _ => exact ⟨_, rfl, rfl⟩
    | 3, _ => exact ⟨_, rfl, rfl⟩

theorem takes_bytes {used : List UInt8} {n : Nat} (h : used.length = n) (offset : Nat) :
    (bytes n).Takes Ends used offset used where
  whole := by
    intro rest
    rw [bytes_apply, List.take_left' h, List.drop_left' h, if_pos h, h]
  cut := by
    intro m hm
    have hshort : ((used.take m).take n).length ≠ n := by
      rw [List.length_take, List.length_take]
      omega
    rw [bytes_apply, if_neg hshort]
    exact ⟨_, rfl, rfl⟩

theorem takes_skip {used : List UInt8} {n : Nat} (h : used.length = n) (offset : Nat) :
    (skip n).Takes Ends used offset () := by
  have hskip : (skip n).Takes Ends (used ++ []) offset () := (takes_bytes h offset).bind .pure
  rwa [List.append_nil] at hskip

theorem bytes_ok_iff {n : Nat} {c c' : Cursor} {block : List UInt8} :
    bytes n c = .ok (block, c') ↔
      block.length = n ∧ c.rest = block ++ c'.rest ∧ c'.offset = c.offset + n := by
  constructor
  · intro h
    rw [bytes_apply] at h
    split at h
    · rename_i hlength
      cases h
      exact ⟨hlength, (List.take_append_drop n c.rest).symm, rfl⟩
    · exact nomatch h
  · rintro ⟨hlength, hrest, hoffset⟩
    have hwhole := (takes_bytes hlength c.offset).whole c'.rest
    rwa [← hrest, hlength, ← hoffset] at hwhole

theorem steady_bytes (n : Nat) : (bytes n).Steady := by
  refine ⟨fun c block c' h => ?_, ensures_bytes verdict_truncated n⟩
  obtain ⟨hlength, hrest, -⟩ := bytes_ok_iff.mp h
  exact ⟨block, hrest, takes_bytes hlength c.offset⟩

theorem steady_skip (n : Nat) : (skip n).Steady :=
  (steady_bytes n).bind fun _ => .pure _

end StackMap.ClassFile.Reader
