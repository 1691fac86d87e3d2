import Mathlib.Data.List.Basic

/-!
# `Proofs.Outcome`: computations that can fail

## Contents

* `bind_eq_ok_iff`, `bind_eq_error_iff`: how two computations in turn succeed and fail.
* `mapError_eq_ok_iff`, `mapError_eq_error_iff`: the same computation with other errors.
* `eq_ok_of_toOption`, `exists_of_map_toOption`, `eq_error_of_errorOf?`: outcomes that can be compared.
* `mapM_cons_eq_ok_iff`, `exists_of_mem_mapM`, `exists_mem_of_mapM`, `exists_mapM_forall₂`,
  `mapM_eq_ok_map`, `exists_mapM_of_forall`, `exists_of_mapM_eq_error`, `mapM_congr_of_ne_error`:
  computations over a list.
* `mem_of_lookup`, `exists_lookup`, `not_mem_of_lookup`: what is found in a list of pairs.
-/

namespace StackMap

variable {ε ε' α β : Type}

theorem bind_eq_ok_iff {x : Except ε α} {k : α → Except ε β} {b : β} :
    x >>= k = .ok b ↔ ∃ a, x = .ok a ∧ k a = .ok b := by
  cases x with
  | error e => exact ⟨nofun, fun ⟨_, h, _⟩ => nomatch h⟩
  | ok a =>
    constructor
    · exact fun h => ⟨a, rfl, h⟩
    · rintro ⟨a', ha, h⟩
      cases ha
      exact h

theorem bind_eq_error_iff {x : Except ε α} {k : α → Except ε β} {e : ε} :
    x >>= k = .error e ↔ x = .error e ∨ ∃ a, x = .ok a ∧ k a = .error e := by
  cases x with
  | error e' =>
    constructor
    · intro h
      cases h
      exact Or.inl rfl
    · rintro (h | ⟨_, h, -⟩)
      · cases h
        rfl
      · exact nomatch h
  | ok a =>
    constructor
    · exact fun h => Or.inr ⟨a, rfl, h⟩
    · rintro (h | ⟨a', ha, h⟩)
      · exact nomatch h
      · cases ha
        exact h

theorem mapError_eq_ok_iff {x : Except ε α} {f : ε → ε'} {a : α} :
    x.mapError f = .ok a ↔ x = .ok a := by
  cases x with
  | error e => exact ⟨nofun, nofun⟩
  | ok b => exact ⟨fun h => by cases h; rfl, fun h => by cases h; rfl⟩

theorem mapError_eq_error_iff {x : Except ε α} {f : ε → ε'} {e' : ε'} :
    x.mapError f = .error e' ↔ ∃ e, x = .error e ∧ f e = e' := by
  cases x with
  | ok a =>
    constructor
    · exact fun h => nomatch h
    · rintro ⟨_, h, -⟩
      exact nomatch h
  | error e =>
    constructor
    · intro h
      cases h
      exact ⟨e, rfl, rfl⟩
    · rintro ⟨_, h, rfl⟩
      cases h
      rfl

/-- A computation that succeeds passes its result on, however its errors would be named. -/
theorem mapError_bind_of_ok {x : Except ε α} {f : ε → ε'} {k : α → Except ε' β} {a : α}
    (h : x = .ok a) : x.mapError f >>= k = k a := by
  rw [h]
  rfl

theorem eq_ok_of_toOption {x : Except ε α} {a : α} (h : x.toOption = some a) : x = .ok a := by
  cases x with
  | error e => cases h
  | ok b =>
    cases h
    rfl

/-- A computation succeeds if something is known of its result. -/
theorem exists_of_map_toOption {x : Except ε α} {f : α → β} {b : β} (h : x.toOption.map f = some b) :
    ∃ a, x = .ok a ∧ f a = b := by
  obtain ⟨a, ha, hb⟩ := Option.map_eq_some_iff.mp h
  exact ⟨a, eq_ok_of_toOption ha, hb⟩

/-- The error of a computation that fails. -/
def errorOf? : Except ε α → Option ε
  | .ok _ => none
  | .error e => some e

theorem eq_error_of_errorOf? {x : Except ε α} {e : ε} (h : errorOf? x = some e) : x = .error e := by
  cases x with
  | error e' =>
    cases h
    rfl
  | ok a => cases h

/-- A computation over a list takes the first element and then the others. -/
theorem mapM_cons_eq_ok_iff {f : α → Except ε β} {a : α} {l : List α} {l' : List β} :
    (a :: l).mapM f = .ok l' ↔ ∃ b bs, f a = .ok b ∧ l.mapM f = .ok bs ∧ l' = b :: bs := by
  rw [List.mapM_cons, bind_eq_ok_iff]
  constructor
  · rintro ⟨b, hb, h⟩
    obtain ⟨bs, hbs, h⟩ := bind_eq_ok_iff.mp h
    cases h
    exact ⟨b, bs, hb, hbs, rfl⟩
  · rintro ⟨b, bs, hb, hbs, rfl⟩
    exact ⟨b, hb, bind_eq_ok_iff.mpr ⟨bs, hbs, rfl⟩⟩

/-- Each result of a computation over a list comes from one of its elements. -/
theorem exists_of_mem_mapM {f : α → Except ε β} {l : List α} {l' : List β}
    (h : l.mapM f = .ok l') {b : β} (hb : b ∈ l') : ∃ a ∈ l, f a = .ok b := by
  induction l generalizing l' with
  | nil =>
    cases h
    exact absurd hb List.not_mem_nil
  | cons a l ih =>
    obtain ⟨b', bs, hb', hbs, rfl⟩ := mapM_cons_eq_ok_iff.mp h
    rcases List.mem_cons.mp hb with rfl | hb
    · exact ⟨a, List.mem_cons_self, hb'⟩
    · obtain ⟨a', ha', hfa'⟩ := ih hbs hb
      exact ⟨a', List.mem_cons_of_mem a ha', hfa'⟩

/-- Each element of a list has a result among those of a computation over it. -/
theorem exists_mem_of_mapM {f : α → Except ε β} {l : List α} {l' : List β}
    (h : l.mapM f = .ok l') {a : α} (ha : a ∈ l) : ∃ b ∈ l', f a = .ok b := by
  induction l generalizing l' with
  | nil => exact absurd ha List.not_mem_nil
  | cons a' l ih =>
    obtain ⟨b', bs, hb', hbs, rfl⟩ := mapM_cons_eq_ok_iff.mp h
    rcases List.mem_cons.mp ha with rfl | ha
    · exact ⟨b', List.mem_cons_self, hb'⟩
    · obtain ⟨b, hb, hfa⟩ := ih hbs ha
      exact ⟨b, List.mem_cons_of_mem b' hb, hfa⟩

/-- Computations for the elements of a list give a computation over it, result by result. -/
theorem exists_mapM_forall₂ {f : α → Except ε β} {P : α → β → Prop} {l : List α}
    (h : ∀ a ∈ l, ∃ b, f a = .ok b ∧ P a b) : ∃ l', l.mapM f = .ok l' ∧ List.Forall₂ P l l' := by
  induction l with
  | nil => exact ⟨[], rfl, .nil⟩
  | cons a l ih =>
    rw [List.forall_mem_cons] at h
    obtain ⟨⟨b, hb, hPb⟩, hl⟩ := h
    obtain ⟨l', hl', hPl'⟩ := ih hl
    exact ⟨b :: l', mapM_cons_eq_ok_iff.mpr ⟨b, l', hb, hl', rfl⟩, .cons hPb hPl'⟩

/-- A computation over a list gives the results for its elements. -/
theorem mapM_eq_ok_map {f : α → Except ε β} {g : α → β} {l : List α}
    (h : ∀ a ∈ l, f a = .ok (g a)) : l.mapM f = .ok (l.map g) := by
  induction l with
  | nil => rfl
  | cons a l ih =>
    obtain ⟨ha, hl⟩ := List.forall_mem_cons.mp h
    exact mapM_cons_eq_ok_iff.mpr ⟨g a, l.map g, ha, ih hl, rfl⟩

/-- A computation over a list succeeds if it does for each element. -/
theorem exists_mapM_of_forall {f : α → Except ε β} {P : β → Prop} {l : List α}
    (h : ∀ a ∈ l, ∃ b, f a = .ok b ∧ P b) : ∃ l', l.mapM f = .ok l' ∧ ∀ b ∈ l', P b := by
  obtain ⟨l', hl', -⟩ := exists_mapM_forall₂ h
  refine ⟨l', hl', fun b hb => ?_⟩
  obtain ⟨a, ha, hfa⟩ := exists_of_mem_mapM hl' hb
  obtain ⟨b', hb', hPb'⟩ := h a ha
  cases hfa.symm.trans hb'
  exact hPb'

/-- A computation over a list fails as it does for one of its elements. -/
theorem exists_of_mapM_eq_error {f : α → Except ε β} {l : List α} {e : ε}
    (h : l.mapM f = .error e) : ∃ a ∈ l, f a = .error e := by
  induction l with
  | nil => exact nomatch h
  | cons a l ih =>
    rw [List.mapM_cons, bind_eq_error_iff] at h
    rcases h with h | ⟨b, -, h⟩
    · exact ⟨a, List.mem_cons_self, h⟩
    · rcases bind_eq_error_iff.mp h with h | ⟨bs, -, h⟩
      · obtain ⟨a', ha', hfa'⟩ := ih h
        exact ⟨a', List.mem_cons_of_mem a ha', hfa'⟩
      · exact nomatch h

/-- Two computations over a list agree if they do wherever the first one does not fail in a given way and
it does not fail in this way. -/
theorem mapM_congr_of_ne_error {f g : α → Except ε β} {l : List α} {e : ε}
    (hfg : ∀ a, f a ≠ .error e → g a = f a) (h : l.mapM f ≠ .error e) : l.mapM g = l.mapM f := by
  induction l with
  | nil => rfl
  | cons a l ih =>
    rw [List.mapM_cons] at h
    have ha : f a ≠ .error e := by
      intro ha
      rw [ha] at h
      exact h rfl
    rw [List.mapM_cons, List.mapM_cons, hfg a ha]
    cases hb : f a with
    | error e' => rfl
    | ok b =>
      -- The first element is out of the way.
      rw [hb] at h
      have hl : l.mapM f ≠ .error e := by
        intro hl
        refine h ?_
        show (l.mapM f >>= fun bs => pure (b :: bs)) = .error e
        rw [hl]
        rfl
      show (l.mapM g >>= fun bs => pure (b :: bs)) = (l.mapM f >>= fun bs => pure (b :: bs))
      rw [ih hl]

/-! ## Look-ups -/

section

variable [BEq α] [LawfulBEq α] {a : α} {b : β} {l : List (α × β)}

theorem mem_of_lookup (h : l.lookup a = some b) : (a, b) ∈ l := by
  obtain ⟨l₁, l₂, rfl, -⟩ := List.lookup_eq_some_iff.mp h
  exact List.mem_append_right l₁ List.mem_cons_self

theorem exists_lookup (h : (a, b) ∈ l) : ∃ b', l.lookup a = some b' := by
  cases hlookup : l.lookup a with
  | some b' => exact ⟨b', rfl⟩
  | none => exact absurd (List.lookup_eq_none_iff.mp hlookup _ h) (by simp)

theorem not_mem_of_lookup (h : l.lookup a = none) : a ∉ l.map Prod.fst := by
  intro hmem
  obtain ⟨⟨_, b⟩, hp, rfl⟩ := List.mem_map.mp hmem
  obtain ⟨b', hb'⟩ := exists_lookup hp
  exact Option.some_ne_none b' (hb'.symm.trans h)

end

end StackMap
