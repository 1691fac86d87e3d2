import StackMap.Proofs.Frame.Rearrange

/-!
# `Proofs.Frame.Words`: stack instructions and words

What a stack instruction does is laid down for words: a value of size two is a pair of words, every other
value is one word. The instruction drops, copies or moves one or two blocks of words on top of the stack,
and it must not cut a pair in two. Frames keep a pair in one entry, and an instruction on entries has a
form for each way to fill its blocks with values. All of these forms are one and the same rule for words,
and one of them applies exactly if no cut splits a pair.

## Contents

* `Word`, `wordsOf`, `SplitsPair`: the words of a stack, and cuts that split a pair.
* `StackOp.permute?`, `StackOp.cuts`, `StackOp.Fits`: the rules for words, and where they apply.
* `permute?_words`: what a form puts back is what the rule says.
* `StackOp.fits_iff`: a rule applies exactly if one of the forms does.
-/

namespace StackMap

/-! ## Words -/

/-- **Words.** A value of size two takes two, which belong together. -/
inductive Word where
  | whole (v : Value)
  | upper (v : Value)
  | lower (v : Value)
  deriving Repr, DecidableEq

/-- The words of an entry, the upper one first. -/
def Slot.words : Slot → List Word
  | none => []
  | some v => if v.size = 2 then [.upper v, .lower v] else [.whole v]

/-- **The words of a stack**, the top first. -/
def wordsOf (stack : List Slot) : List Word := stack.flatMap Slot.words

/-- **A cut below `n` words splits a pair**: the words next to it are the two of one value. -/
def SplitsPair (words : List Word) (n : Nat) : Prop :=
  ∃ k v, n = k + 1 ∧ words[k]? = some (.upper v) ∧ words[k + 1]? = some (.lower v)

theorem wordsOf_nil : wordsOf [] = [] := rfl

theorem wordsOf_cons (v : Slot) (s : List Slot) : wordsOf (v :: s) = v.words ++ wordsOf s := rfl

theorem wordsOf_append (s t : List Slot) : wordsOf (s ++ t) = wordsOf s ++ wordsOf t :=
  List.flatMap_append

theorem Slot.words_of_narrow {v : Slot} (h : v.width = some 1) :
    v.words = [.whole (v.getD .uninit)] := by
  obtain ⟨x, rfl, hx⟩ := Option.map_eq_some_iff.mp h
  simp [words, hx]

theorem Slot.words_of_wide {v : Slot} (h : v.width = some 2) :
    v.words = [.upper (v.getD .uninit), .lower (v.getD .uninit)] := by
  obtain ⟨x, rfl, hx⟩ := Option.map_eq_some_iff.mp h
  simp [words, hx]

theorem Slot.length_words {v : Slot} {n : Nat} (h : v.width = some n) : v.words.length = n := by
  rcases Slot.width_eq h with rfl | rfl
  · rw [words_of_narrow h, List.length_singleton]
  · rw [words_of_wide h, List.length_cons, List.length_singleton]

theorem Slot.exists_width {v : Slot} (h : v.isSome) : ∃ n, v.width = some n := by
  obtain ⟨x, rfl⟩ := Option.isSome_iff_exists.mp h
  exact ⟨x.size, rfl⟩

/-! ## Cuts -/

theorem not_splitsPair_zero (words : List Word) : ¬ SplitsPair words 0 := by
  rintro ⟨k, v, hk, -, -⟩
  omega

/-- The words of an entry are no part of a pair that is split below them. -/
theorem splitsPair_entry {v : Slot} (hv : v.isSome) {words : List Word} {n : Nat} :
    SplitsPair (v.words ++ words) (v.words.length + n) ↔ SplitsPair words n := by
  obtain ⟨m, hm⟩ := Slot.exists_width hv
  -- The last word of an entry is a whole one or the lower one of a pair.
  have hlast : ∀ k x, k + 1 = v.words.length → (v.words ++ words)[k]? ≠ some (.upper x) := by
    rcases Slot.width_eq hm with rfl | rfl
    · rw [Slot.words_of_narrow hm]
      rintro k x hk
      obtain rfl : k = 0 := by simpa using hk
      simp
    · rw [Slot.words_of_wide hm]
      rintro k x hk
      obtain rfl : k = 1 := by simpa using hk
      simp
  constructor
  · rintro ⟨k, x, hk, hupper, hlower⟩
    rcases Nat.lt_or_ge k v.words.length with hlt | hge
    · exact absurd hupper (hlast k x (by omega))
    · rw [List.getElem?_append_right hge] at hupper
      rw [List.getElem?_append_right (by omega)] at hlower
      refine ⟨k - v.words.length, x, by omega, hupper, ?_⟩
      rwa [← Nat.sub_add_comm hge]
  · rintro ⟨k, x, rfl, hupper, hlower⟩
    refine ⟨v.words.length + k, x, by omega, ?_, ?_⟩
    · rwa [List.getElem?_append_right (by omega), Nat.add_sub_cancel_left]
    · rwa [List.getElem?_append_right (by omega), Nat.add_assoc, Nat.add_sub_cancel_left]

/-- Entries that lie above a cut do not matter for it. -/
theorem splitsPair_append {taken : List Slot} (ht : ∀ v ∈ taken, v.isSome) {words : List Word} {n : Nat} :
    SplitsPair (wordsOf taken ++ words) ((wordsOf taken).length + n) ↔ SplitsPair words n := by
  induction taken with
  | nil => rw [wordsOf_nil, List.nil_append, List.length_nil, Nat.zero_add]
  | cons v taken ih =>
    rw [List.forall_mem_cons] at ht
    rw [wordsOf_cons, List.length_append, List.append_assoc, Nat.add_assoc, splitsPair_entry ht.1,
      ih ht.2]

/-- **A cut that splits no pair lies between two entries.** -/
theorem exists_split {s : List Slot} (hs : ∀ v ∈ s, v.isSome) {n : Nat} (hn : n ≤ (wordsOf s).length)
    (hcut : ¬ SplitsPair (wordsOf s) n) :
    ∃ taken rest, s = taken ++ rest ∧ (wordsOf taken).length = n := by
  induction s generalizing n with
  | nil => exact ⟨[], [], rfl, (Nat.le_zero.mp hn).symm⟩
  | cons v s ih =>
    rw [List.forall_mem_cons] at hs
    rw [wordsOf_cons] at hn hcut
    rcases Nat.lt_or_ge n v.words.length with hlt | hge
    · -- The cut is at the top of the stack, or it splits the first entry.
      cases n with
      | zero => exact ⟨[], v :: s, rfl, rfl⟩
      | succ n =>
        obtain ⟨m, hm⟩ := Slot.exists_width hs.1
        rw [Slot.length_words hm] at hlt
        obtain rfl : m = 2 := (Slot.width_eq hm).resolve_left (by omega)
        obtain rfl : n = 0 := by omega
        refine absurd ⟨0, v.getD .uninit, rfl, ?_, ?_⟩ hcut
        · rw [Slot.words_of_wide hm]
          rfl
        · rw [Slot.words_of_wide hm]
          rfl
    · obtain ⟨k, rfl⟩ := Nat.exists_eq_add_of_le hge
      rw [splitsPair_entry hs.1] at hcut
      obtain ⟨taken, rest, rfl, htaken⟩ := ih hs.2 (by simpa using hn) hcut
      exact ⟨v :: taken, rest, rfl, by rw [wordsOf_cons, List.length_append, htaken]⟩

/-! ## The rules -/

/-- **What a stack instruction does to words**, the top first. There may be too few of them. -/
def StackOp.permute? : StackOp → List Word → Option (List Word)
  | .pop, _ :: rest => some rest
  | .pop2, _ :: _ :: rest => some rest
  | .dup, a :: rest => some (a :: a :: rest)
  | .dupX1, a :: b :: rest => some (a :: b :: a :: rest)
  | .dupX2, a :: b :: c :: rest => some (a :: b :: c :: a :: rest)
  | .dup2, a :: b :: rest => some (a :: b :: a :: b :: rest)
  | .dup2X1, a :: b :: c :: rest => some (a :: b :: c :: a :: b :: rest)
  | .dup2X2, a :: b :: c :: d :: rest => some (a :: b :: c :: d :: a :: b :: rest)
  | .swap, a :: b :: rest => some (b :: a :: rest)
  | _, _ => none

/-- **The cuts that a stack instruction makes**, by the number of words above them. -/
def StackOp.cuts : StackOp → List Nat
  | .pop | .dup => [1]
  | .pop2 | .dup2 => [2]
  | .dupX1 | .swap => [1, 2]
  | .dupX2 => [1, 3]
  | .dup2X1 => [2, 3]
  | .dup2X2 => [2, 4]

/-- **A stack instruction fits**: there are enough words, and no cut splits a pair. -/
structure StackOp.Fits (op : StackOp) (words : List Word) : Prop where
  enough : (op.permute? words).isSome
  whole : ∀ n ∈ op.cuts, ¬ SplitsPair words n

/-- There are enough words if the lowest cut has as many above it. -/
theorem StackOp.isSome_permute?_iff {op : StackOp} {words : List Word} :
    (op.permute? words).isSome ↔ ∀ n ∈ op.cuts, n ≤ words.length := by
  rcases words with _ | ⟨a, _ | ⟨b, _ | ⟨c, _ | ⟨d, rest⟩⟩⟩⟩ <;> cases op <;>
    simp [StackOp.permute?, StackOp.cuts]

/-! ## Forms and rules -/

/-- The entries that a form takes, one by one. -/
theorem forall_takes_cons {n : Nat} {widths picks : List Nat} {P : List Slot → Prop} :
    (∀ taken, StackOp.Form.Takes ⟨n :: widths, picks⟩ taken → P taken) ↔
      ∀ v : Slot, v.width = some n →
        ∀ more, StackOp.Form.Takes ⟨widths, picks⟩ more → P (v :: more) := by
  constructor
  · intro h v hv more hmore
    exact h (v :: more) (by rw [StackOp.Form.Takes, List.map_cons, List.map_cons, hv, hmore])
  · intro h taken htaken
    obtain ⟨v, more, rfl, hv, hmore⟩ := List.map_eq_cons_iff.mp htaken
    exact h v hv more hmore

theorem forall_takes_nil {picks : List Nat} {P : List Slot → Prop} :
    (∀ taken, StackOp.Form.Takes ⟨[], picks⟩ taken → P taken) ↔ P [] := by
  simp [StackOp.Form.Takes]

/-- **All forms of an instruction are one rule for words.** One case for each form. -/
theorem permute?_words {rest : List Slot} (op : StackOp) :
    ∀ form ∈ op.forms, ∀ taken, form.Takes taken →
      op.permute? (wordsOf (taken ++ rest)) = some (wordsOf (form.given taken ++ rest)) := by
  cases op
  all_goals simp only [StackOp.forms, List.forall_mem_cons, forall_takes_cons, forall_takes_nil]
  all_goals
    simp +contextual [wordsOf_cons, wordsOf_append, Slot.words_of_narrow, Slot.words_of_wide,
      StackOp.Form.given, StackOp.permute?]

/-! ## Blocks

An instruction makes its cuts below blocks of one or two words, and a block of two words is filled by one
value of size two or by two smaller ones. -/

/-- The blocks of an instruction, by their numbers of words. -/
def StackOp.blocks : StackOp → List Nat
  | .pop | .dup => [1]
  | .pop2 | .dup2 => [2]
  | .dupX1 | .swap => [1, 1]
  | .dupX2 => [1, 2]
  | .dup2X1 => [2, 1]
  | .dup2X2 => [2, 2]

/-- The cuts below blocks. -/
def cutsBelow : List Nat → List Nat
  | [] => []
  | b :: blocks => b :: (cutsBelow blocks).map (b + ·)

/-- The sizes of the values that fill a block. -/
def fillings : Nat → List (List Nat)
  | 1 => [[1]]
  | 2 => [[2], [1, 1]]
  | _ => []

/-- The sizes of the values that fill several blocks. -/
def fillingsOf : List Nat → List (List Nat)
  | [] => [[]]
  | b :: blocks => (fillings b).flatMap fun widths => (fillingsOf blocks).map (widths ++ ·)

theorem mem_fillingsOf_cons {b : Nat} {blocks widths : List Nat} :
    widths ∈ fillingsOf (b :: blocks) ↔
      ∃ first ∈ fillings b, ∃ more ∈ fillingsOf blocks, first ++ more = widths := by
  rw [fillingsOf, List.mem_flatMap]
  simp only [List.mem_map]

theorem StackOp.cuts_eq (op : StackOp) : op.cuts = cutsBelow op.blocks := by
  cases op <;> rfl

/-- The forms of an instruction are the ways to fill its blocks. -/
theorem StackOp.map_widths_forms (op : StackOp) :
    op.forms.map StackOp.Form.widths = fillingsOf op.blocks := by
  cases op <;> rfl

theorem StackOp.one_or_two_of_mem_blocks {op : StackOp} : ∀ b ∈ op.blocks, b = 1 ∨ b = 2 := by
  cases op <;> decide

theorem eq_nil_of_wordsOf {s : List Slot} (hs : ∀ v ∈ s, v.isSome) (h : wordsOf s = []) : s = [] := by
  cases s with
  | nil => rfl
  | cons v s =>
    obtain ⟨n, hn⟩ := Slot.exists_width (hs v List.mem_cons_self)
    have hlen := congrArg List.length h
    rw [wordsOf_cons, List.length_append, Slot.length_words hn, List.length_nil] at hlen
    rcases Slot.width_eq hn with rfl | rfl <;> omega

/-- Entries that make up one word. -/
theorem width_of_length_one {s : List Slot} (hs : ∀ v ∈ s, v.isSome) (h : (wordsOf s).length = 1) :
    s.map Slot.width = [some 1] := by
  cases s with
  | nil => exact nomatch h
  | cons v s =>
    rw [List.forall_mem_cons] at hs
    obtain ⟨n, hn⟩ := Slot.exists_width hs.1
    rw [wordsOf_cons, List.length_append, Slot.length_words hn] at h
    obtain rfl : n = 1 := (Slot.width_eq hn).resolve_right (by omega)
    rw [eq_nil_of_wordsOf hs.2 (List.eq_nil_of_length_eq_zero (by omega)), List.map_singleton, hn]

/-- Entries that make up a block are one of its fillings. -/
theorem exists_filling {b : Nat} (hb : b = 1 ∨ b = 2) {s : List Slot} (hs : ∀ v ∈ s, v.isSome)
    (h : (wordsOf s).length = b) : ∃ widths ∈ fillings b, s.map Slot.width = widths.map some := by
  rcases hb with rfl | rfl
  · exact ⟨[1], List.mem_singleton_self _, width_of_length_one hs h⟩
  · cases s with
    | nil => exact nomatch h
    | cons v s =>
      rw [List.forall_mem_cons] at hs
      obtain ⟨n, hn⟩ := Slot.exists_width hs.1
      rw [wordsOf_cons, List.length_append, Slot.length_words hn] at h
      rw [List.map_cons, hn]
      rcases Slot.width_eq hn with rfl | rfl
      · rw [width_of_length_one hs.2 (by omega)]
        exact ⟨[1, 1], by decide, rfl⟩
      · rw [eq_nil_of_wordsOf hs.2 (List.eq_nil_of_length_eq_zero (by omega))]
        exact ⟨[2], by decide, rfl⟩

/-- A filling makes up its block. -/
theorem length_of_filling {b : Nat} {widths : List Nat} (h : widths ∈ fillings b) {s : List Slot}
    (hs : s.map Slot.width = widths.map some) : (wordsOf s).length = b := by
  have hone : ∀ n, s.map Slot.width = [some n] → (wordsOf s).length = n := by
    intro n hn
    obtain ⟨v, rfl, hv⟩ := List.map_eq_singleton_iff.mp hn
    rw [wordsOf_cons, wordsOf_nil, List.append_nil, Slot.length_words hv]
  unfold fillings at h
  split at h
  · rw [List.mem_singleton.mp h] at hs
    exact hone 1 hs
  · rw [List.mem_cons, List.mem_singleton] at h
    rcases h with rfl | rfl
    · exact hone 2 hs
    · obtain ⟨v, more, rfl, hv, hmore⟩ := List.map_eq_cons_iff.mp hs
      obtain ⟨w, rfl, hw⟩ := List.map_eq_singleton_iff.mp hmore
      rw [wordsOf_cons, wordsOf_cons, wordsOf_nil, List.append_nil, List.length_append,
        Slot.length_words hv, Slot.length_words hw]
  · exact nomatch h

/-- **No cut below blocks splits a pair exactly if values fill the blocks.** -/
theorem cuts_iff_fillings {blocks : List Nat} (hblocks : ∀ b ∈ blocks, b = 1 ∨ b = 2) {s : List Slot}
    (hs : ∀ v ∈ s, v.isSome) :
    (∀ n ∈ cutsBelow blocks, n ≤ (wordsOf s).length ∧ ¬ SplitsPair (wordsOf s) n) ↔
      ∃ widths ∈ fillingsOf blocks, ∃ taken rest, s = taken ++ rest ∧
        taken.map Slot.width = widths.map some := by
  -- One block after the other: what has been filled lies above all further cuts.
  induction blocks generalizing s with
  | nil => exact ⟨fun _ => ⟨[], List.mem_singleton_self _, [], s, rfl, rfl⟩, fun _ => nofun⟩
  | cons b blocks ih =>
    rw [List.forall_mem_cons] at hblocks
    rw [cutsBelow, List.forall_mem_cons, List.forall_mem_map]
    simp only [mem_fillingsOf_cons]
    constructor
    · rintro ⟨⟨hn, hcut⟩, hmore⟩
      obtain ⟨first, rest, rfl, hlen⟩ := exists_split hs hn hcut
      rw [List.forall_mem_append] at hs
      obtain ⟨widths, hwidths, hfirst⟩ := exists_filling hblocks.1 hs.1 hlen
      have hrest : ∀ n ∈ cutsBelow blocks, n ≤ (wordsOf rest).length ∧ ¬ SplitsPair (wordsOf rest) n := by
        intro n hmem
        have h := hmore n hmem
        rw [← hlen, wordsOf_append, splitsPair_append hs.1, List.length_append] at h
        exact ⟨by omega, h.2⟩
      obtain ⟨widths', hwidths', taken, rest, rfl, htaken⟩ := (ih hblocks.2 hs.2).mp hrest
      refine ⟨_, ⟨widths, hwidths, widths', hwidths', rfl⟩, first ++ taken, rest, ?_, ?_⟩
      · rw [List.append_assoc]
      · rw [List.map_append, List.map_append, hfirst, htaken]
    · rintro ⟨_, ⟨widths, hwidths, widths', hwidths', rfl⟩, taken, rest, rfl, htaken⟩
      rw [List.map_append] at htaken
      obtain ⟨first, taken, rfl, hfirst, htaken⟩ := List.map_eq_append_iff.mp htaken
      rw [List.append_assoc] at hs ⊢
      rw [List.forall_mem_append] at hs
      have hlen : (wordsOf first).length = b := length_of_filling hwidths hfirst
      have hrest := (ih hblocks.2 hs.2).mpr ⟨widths', hwidths', taken, rest, rfl, htaken⟩
      rw [← hlen, wordsOf_append, List.length_append]
      refine ⟨⟨Nat.le_add_right _ _, ?_⟩, fun n hmem => ?_⟩
      · rw [← Nat.add_zero (wordsOf first).length, splitsPair_append hs.1]
        exact not_splitsPair_zero _
      · rw [splitsPair_append hs.1]
        exact ⟨Nat.add_le_add_left (hrest n hmem).1 _, (hrest n hmem).2⟩

/-- **A stack instruction fits exactly if one of its forms does.** -/
theorem StackOp.fits_iff {op : StackOp} {s : List Slot} (hs : ∀ v ∈ s, v.isSome) :
    op.Fits (wordsOf s) ↔
      ∃ form ∈ op.forms, ∃ taken rest, s = taken ++ rest ∧ form.Takes taken := by
  have hcuts : op.Fits (wordsOf s) ↔
      ∀ n ∈ cutsBelow op.blocks, n ≤ (wordsOf s).length ∧ ¬ SplitsPair (wordsOf s) n := by
    rw [← op.cuts_eq]
    constructor
    · exact fun h n hn => ⟨isSome_permute?_iff.mp h.enough n hn, h.whole n hn⟩
    · exact fun h => ⟨isSome_permute?_iff.mpr fun n hn => (h n hn).1, fun n hn => (h n hn).2⟩
  rw [hcuts, cuts_iff_fillings one_or_two_of_mem_blocks hs, ← op.map_widths_forms]
  constructor
  · rintro ⟨_, hmem, taken, rest, rfl, htaken⟩
    obtain ⟨form, hform, rfl⟩ := List.mem_map.mp hmem
    exact ⟨form, hform, taken, rest, rfl, htaken⟩
  · rintro ⟨form, hform, taken, rest, rfl, htakes⟩
    exact ⟨_, List.mem_map_of_mem hform, taken, rest, rfl, htakes⟩

end StackMap
