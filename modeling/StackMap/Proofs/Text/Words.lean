import Mathlib.Data.List.Basic
import StackMap.Text.Blank

/-!
# `Proofs.Text.Words`: words and what stands between them

A text without blanks at its ends is what trimming leaves of it. Words that are written with one space between
them are such a text, and it is cut into the same words again.

## Contents

* `Trimmed`, `trim_eq`: texts without blanks at their ends.
* `splitWhere_append_cons`, `lines_append`: the parts of lists with a separator between them.
* `splitWhere_append`, `splitWhere_of_forall`, `lines_eq`: parts without separators.
* `IsWord`, `spaced`: words, and words with a space between them.
* `words_spaced`: the words of such a text.
-/

namespace StackMap.Text

/-! ## Blanks at the ends -/

/-- **Texts that start and end with characters that are not blank.** -/
structure Trimmed (s : List Char) : Prop where
  first : ∃ c rest, s = c :: rest ∧ ¬ isBlank c
  last : ∃ c front, s = front ++ [c] ∧ ¬ isBlank c

/-- **Trimming leaves such a text alone.** -/
theorem Trimmed.trim_eq {s : List Char} (h : Trimmed s) : trim s = s := by
  have hstart : trimStart s = s := by
    obtain ⟨c, rest, rfl, hc⟩ := h.first
    exact List.dropWhile_cons_of_neg hc
  obtain ⟨c, front, hs, hc⟩ := h.last
  unfold trim trimEnd
  rw [hstart, hs, List.reverse_append, List.reverse_singleton, List.singleton_append,
    List.dropWhile_cons_of_neg hc, List.reverse_cons, List.reverse_reverse]

/-- A blank in front of a text is not part of what trimming leaves. -/
theorem trim_cons_of_blank {c : Char} (hc : isBlank c) (s : List Char) : trim (c :: s) = trim s := by
  unfold trim trimStart
  rw [List.dropWhile_cons_of_pos hc]

/-- Blanks between two such texts are not at the ends. -/
theorem Trimmed.append {s t : List Char} (hs : Trimmed s) (gap : List Char) (ht : Trimmed t) :
    Trimmed (s ++ (gap ++ t)) := by
  obtain ⟨c, rest, rfl, hc⟩ := hs.first
  obtain ⟨d, front, rfl, hd⟩ := ht.last
  exact ⟨⟨c, rest ++ (gap ++ (front ++ [d])), rfl, hc⟩, d, c :: rest ++ (gap ++ front),
    by simp only [List.append_assoc], hd⟩

/-! ## Parts -/

section

variable {α : Type} {p : α → Bool}

/-- What contains no separator is one part. -/
theorem splitWhere_of_forall {part : List α} (h : ∀ a ∈ part, ¬ p a) : splitWhere p part = [part] := by
  induction part with
  | nil => rfl
  | cons a part ih =>
    obtain ⟨ha, hpart⟩ := List.forall_mem_cons.mp h
    rw [splitWhere, if_neg ha, ih hpart]

theorem splitWhere_ne_nil (l : List α) : splitWhere p l ≠ [] := by
  cases l with
  | nil => exact List.cons_ne_nil _ _
  | cons a l =>
    rw [splitWhere]
    split
    · exact List.cons_ne_nil _ _
    · split
      · exact List.cons_ne_nil _ _
      · exact List.cons_ne_nil _ _

/-- **The parts of two lists with a separator between them** are those of both. -/
theorem splitWhere_append_cons (l : List α) {sep : α} (hsep : p sep) (rest : List α) :
    splitWhere p (l ++ sep :: rest) = splitWhere p l ++ splitWhere p rest := by
  induction l with
  | nil =>
    show splitWhere p (sep :: rest) = [] :: splitWhere p rest
    rw [splitWhere, if_pos hsep]
  | cons a l ih =>
    rw [List.cons_append, splitWhere, splitWhere, ih]
    by_cases ha : p a
    · rw [if_pos ha, if_pos ha]
      rfl
    · rw [if_neg ha, if_neg ha]
      obtain ⟨part, parts, hparts⟩ := List.exists_cons_of_ne_nil (splitWhere_ne_nil (p := p) l)
      rw [hparts]
      rfl

/-- **What stands before the first separator is the first part.** -/
theorem splitWhere_append {part : List α} (h : ∀ a ∈ part, ¬ p a) {sep : α} (hsep : p sep) (rest : List α) :
    splitWhere p (part ++ sep :: rest) = part :: splitWhere p rest := by
  rw [splitWhere_append_cons part hsep, splitWhere_of_forall h]
  rfl

end

/-- The lines of two texts with a line feed between them. -/
theorem lines_append (s t : List Char) : lines (s ++ '\n' :: t) = lines s ++ lines t :=
  splitWhere_append_cons s (by decide) t

/-- A text without line feeds is one line. -/
theorem lines_eq {s : List Char} (h : '\n' ∉ s) : lines s = [s] := by
  apply splitWhere_of_forall
  intro c hc heq
  exact h (eq_of_beq heq ▸ hc)

/-! ## Words -/

/-- **Words**: not empty, and without blanks. -/
structure IsWord (w : List Char) : Prop where
  ne_nil : w ≠ []
  dense : ∀ c ∈ w, ¬ isBlank c

/-- **Words with a space between them.** -/
def spaced : List (List Char) → List Char
  | [] => []
  | [w] => w
  | w :: ws => w ++ ' ' :: spaced ws

theorem IsWord.trimmed {w : List Char} (h : IsWord w) : Trimmed w := by
  obtain ⟨c, rest, hw⟩ := List.exists_cons_of_ne_nil h.ne_nil
  have hlast : w = w.dropLast ++ [w.getLast h.ne_nil] := (List.dropLast_append_getLast h.ne_nil).symm
  exact ⟨⟨c, rest, hw, h.dense c (hw ▸ List.mem_cons_self)⟩, _, _, hlast,
    h.dense _ (List.getLast_mem h.ne_nil)⟩

/-- **A space between words is no blank at the ends.** By induction on the words. -/
theorem trimmed_spaced {w : List Char} {ws : List (List Char)} (h : ∀ v ∈ w :: ws, IsWord v) :
    Trimmed (spaced (w :: ws)) := by
  induction ws generalizing w with
  | nil => exact (h w List.mem_cons_self).trimmed
  | cons v ws ih =>
    obtain ⟨hw, hrest⟩ := List.forall_mem_cons.mp h
    exact hw.trimmed.append [' '] (ih hrest)

/-- **The words of such a text** are those that it is made of. By induction on the words. -/
theorem words_spaced {ws : List (List Char)} (h : ∀ w ∈ ws, IsWord w) : words (spaced ws) = ws := by
  induction ws with
  | nil => rfl
  | cons w ws ih =>
    obtain ⟨hw, hrest⟩ := List.forall_mem_cons.mp h
    have hkept : (fun v : List Char => !v.isEmpty) w = true := by simpa using hw.ne_nil
    cases ws with
    | nil =>
      show (splitWhere isBlank w).filter _ = _
      rw [splitWhere_of_forall hw.dense, List.filter_cons_of_pos (p := fun v : List Char => !v.isEmpty) hkept,
        List.filter_nil]
    | cons v ws =>
      show (splitWhere isBlank (w ++ ' ' :: spaced (v :: ws))).filter _ = _
      rw [splitWhere_append hw.dense (by decide), List.filter_cons_of_pos (p := fun v : List Char => !v.isEmpty) hkept]
      exact congrArg (w :: ·) (ih hrest)

/-- The characters of such a text are spaces and those of the words. -/
theorem mem_spaced {ws : List (List Char)} {c : Char} (h : c ∈ spaced ws) : c = ' ' ∨ ∃ w ∈ ws, c ∈ w := by
  induction ws with
  | nil => exact absurd h List.not_mem_nil
  | cons w ws ih =>
    cases ws with
    | nil => exact .inr ⟨w, List.mem_cons_self, h⟩
    | cons v ws =>
      rcases List.mem_append.mp h with hw | hrest
      · exact .inr ⟨w, List.mem_cons_self, hw⟩
      rcases List.mem_cons.mp hrest with hspace | hrest
      · exact .inl hspace
      rcases ih hrest with hspace | ⟨u, hu, hc⟩
      · exact .inl hspace
      · exact .inr ⟨u, List.mem_cons_of_mem _ hu, hc⟩

end StackMap.Text
