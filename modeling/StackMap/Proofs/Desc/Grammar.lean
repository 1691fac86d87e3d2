import StackMap.Desc.Parse
import StackMap.Proofs.Outcome

/-!
# `Proofs.Desc.Grammar`: the grammar of descriptors

The grammar of descriptors is given as predicates of texts, apart from the functions that read them.
Each of these functions is then known by an equivalence: it succeeds with a certain rest exactly on the
texts that are a piece of the grammar in front of that rest. A text has therefore one reading, and an
accepted text is all of one descriptor.

All characters that the grammar names are of one byte. So it does not matter whether the elements of a
text are its characters or its bytes: the name of a class is what stands between an `L` and the next `;`.

## Contents

* `IsField`, `IsResult`, `IsDescriptor`: the grammar.
* `Ended`, `IsDescriptor.ended`: how a descriptor ends.
* `sortOf`, `typeOf`: the sort and the type that the first character of a descriptor determines.
* `skipField_eq_ok_iff`, `skipResult_eq_ok_iff`, `fieldTexts_eq_ok_iff`: what the pieces are.
* `parse_eq_ok_iff`: what is accepted, and with which type.
* `parse_exactly_grammar`: acceptance and refusal, as one statement.
-/

namespace StackMap

namespace Desc

/-! ## The grammar -/

/-- **Field descriptors**: up to 255 times `[`, and then the letter of a primitive type, or the name of a
class between `L` and `;`. -/
inductive IsField : List Char → Prop where
  | primitive {dimensions : Nat} {c : Char} : dimensions ≤ 255 →
      c ∈ ['Z', 'C', 'B', 'S', 'I', 'F', 'J', 'D'] →
      IsField (List.replicate dimensions '[' ++ [c])
  | object {dimensions : Nat} {name : List Char} : dimensions ≤ 255 → name ≠ [] → ';' ∉ name →
      IsField (List.replicate dimensions '[' ++ 'L' :: (name ++ [';']))

/-- **Result descriptors**: `V` or a field descriptor. -/
inductive IsResult : List Char → Prop where
  | void : IsResult ['V']
  | field {s : List Char} : IsField s → IsResult s

/-- **Descriptors**: `V`, a field descriptor, or the parameters and the result of a method. -/
inductive IsDescriptor : List Char → Prop where
  | value {s : List Char} : IsResult s → IsDescriptor s
  | method {parameters : List (List Char)} {result : List Char} :
      (∀ p ∈ parameters, IsField p) → IsResult result →
      IsDescriptor ('(' :: (parameters.flatten ++ ')' :: result))

/-- The sort of a type whose descriptor starts with a character. -/
def sortOf : Char → TypeSort
  | 'V' => .void
  | 'Z' => .boolean
  | 'C' => .char
  | 'B' => .byte
  | 'S' => .short
  | 'I' => .int
  | 'F' => .float
  | 'J' => .long
  | 'D' => .double
  | '[' => .array
  | 'L' => .object
  | '(' => .method
  | _ => .absent

/-- The type of a descriptor. -/
def typeOf : List Char → Ty
  | '(' :: s => .method (String.ofList ('(' :: s))
  | s => fieldType s

/-! ## How a field descriptor starts -/

theorem isPrimitive_iff {c : Char} :
    isPrimitive c ↔ c ∈ ['Z', 'C', 'B', 'S', 'I', 'F', 'J', 'D'] := by
  unfold isPrimitive ofLetter?
  split <;> simp_all

/-- A field descriptor starts with `[`, with `L` or with the letter of a primitive type. -/
theorem IsField.exists_cons {s : List Char} (h : IsField s) :
    ∃ c rest, s = c :: rest ∧ (c = '[' ∨ c = 'L' ∨ isPrimitive c) := by
  cases h with
  | @primitive dimensions c hdims hc =>
    cases dimensions with
    | zero => exact ⟨c, [], rfl, Or.inr (Or.inr (isPrimitive_iff.mpr hc))⟩
    | succ n => exact ⟨'[', List.replicate n '[' ++ [c], rfl, Or.inl rfl⟩
  | @object dimensions name hdims hne hname =>
    cases dimensions with
    | zero => exact ⟨'L', name ++ [';'], rfl, Or.inr (Or.inl rfl)⟩
    | succ n => exact ⟨'[', _, rfl, Or.inl rfl⟩

/-! ## How a descriptor ends -/

/-- **The text ends with a character that is neither `[` nor `)`.** -/
def Ended (s : List Char) : Prop := ∃ front c, s = front ++ [c] ∧ c ≠ '[' ∧ c ≠ ')'

theorem Ended.append (front : List Char) {s : List Char} (h : Ended s) : Ended (front ++ s) := by
  obtain ⟨front', c, rfl, hc⟩ := h
  exact ⟨front ++ front', c, by rw [List.append_assoc], hc⟩

theorem Ended.exists_ne {s : List Char} (h : Ended s) : ∃ c ∈ s, c ≠ '[' := by
  obtain ⟨front, c, rfl, hc, -⟩ := h
  exact ⟨c, by simp, hc⟩

theorem IsField.ended {s : List Char} (h : IsField s) : Ended s := by
  cases h with
  | @primitive dimensions c hdims hc =>
    refine ⟨List.replicate dimensions '[', c, rfl, ?_, ?_⟩
    · rintro rfl
      exact absurd hc (by decide)
    · rintro rfl
      exact absurd hc (by decide)
  | @object dimensions name hdims hne hname =>
    have hend : Ended ([';'] : List Char) := ⟨[], ';', rfl, by decide⟩
    exact .append _ (.append ('L' :: name) hend)

theorem IsResult.ended {s : List Char} (h : IsResult s) : Ended s := by
  cases h with
  | void => exact ⟨[], 'V', rfl, by decide⟩
  | field hfield => exact hfield.ended

/-- **A descriptor ends** with a letter or with `;`. -/
theorem IsDescriptor.ended {s : List Char} (h : IsDescriptor s) : Ended s := by
  cases h with
  | value hvalue => exact hvalue.ended
  | @method parameters result hparameters hresult =>
    have hend : Ended (')' :: result) := .append [')'] hresult.ended
    exact .append ('(' :: parameters.flatten) hend

/-! ## Reading a field descriptor -/

theorem cutAt_eq_some_iff {p : Char → Bool} {s l r : List Char} :
    Text.cutAt p s = some (l, r) ↔ ∃ c, p c ∧ (∀ a ∈ l, ¬ p a) ∧ s = l ++ c :: r := by
  induction s generalizing l with
  | nil =>
    constructor
    · exact nofun
    · rintro ⟨c, -, -, hs⟩
      exact absurd hs.symm (List.append_ne_nil_of_right_ne_nil l (List.cons_ne_nil c r))
  | cons a s ih =>
    unfold Text.cutAt
    by_cases ha : p a
    · rw [if_pos ha]
      constructor
      · intro h
        cases h
        exact ⟨a, ha, fun _ hmem => absurd hmem List.not_mem_nil, rfl⟩
      · rintro ⟨c, -, hl, hs⟩
        -- The first element already is one to cut at, so nothing stands in front of it.
        cases l with
        | nil =>
          cases hs
          rfl
        | cons b l =>
          cases hs
          exact absurd ha (hl a List.mem_cons_self)
    · rw [if_neg ha, Option.map_eq_some_iff]
      constructor
      · rintro ⟨⟨l', r'⟩, hcut, heq⟩
        cases heq
        obtain ⟨c, hc, hl, rfl⟩ := ih.mp hcut
        exact ⟨c, hc, List.forall_mem_cons.mpr ⟨ha, hl⟩, rfl⟩
      · rintro ⟨c, hc, hl, hs⟩
        cases l with
        | nil =>
          cases hs
          exact absurd hc ha
        | cons b l =>
          cases hs
          exact ⟨(l, r), ih.mpr ⟨c, hc, (List.forall_mem_cons.mp hl).2, rfl⟩, rfl⟩

/-- The dimensions at the start of a text, and what stands behind them. -/
theorem dimensions_append {c : Char} (hc : c ≠ '[') (dimensions : Nat) (s : List Char) :
    countDimensions (List.replicate dimensions '[' ++ c :: s) = dimensions ∧
      (List.replicate dimensions '[' ++ c :: s).dropWhile (· == '[') = c :: s := by
  have hall : ∀ a ∈ List.replicate dimensions '[', (a == '[') = true := by
    intro a ha
    rw [List.eq_of_mem_replicate ha]
    rfl
  have hc : ¬ (c == '[') = true := by simpa using hc
  unfold countDimensions
  rw [List.takeWhile_append_of_pos hall, List.dropWhile_append_of_pos hall,
    List.takeWhile_cons_of_neg (p := (· == '[')) hc, List.dropWhile_cons_of_neg (p := (· == '[')) hc,
    List.append_nil, List.length_replicate]
  exact ⟨rfl, rfl⟩

/-- Every text is some `[` in front of one that does not start with `[`. -/
theorem eq_dimensions_append (s : List Char) :
    s = List.replicate (countDimensions s) '[' ++ s.dropWhile (· == '[') := by
  have hall : s.takeWhile (· == '[') = List.replicate (countDimensions s) '[' := by
    refine List.eq_replicate_iff.mpr ⟨rfl, fun a ha => ?_⟩
    simpa using List.all_eq_true.mp List.all_takeWhile a ha
  rw [← hall, List.takeWhile_append_dropWhile]

/-- **A field descriptor is read to its end**, whatever stands behind it. -/
theorem skipField_append {field : List Char} (h : IsField field) (offset : Nat) (rest : List Char) :
    skipField offset (field ++ rest) = .ok rest := by
  cases h with
  | @primitive dimensions c hdims hc =>
    have hprim : isPrimitive c := isPrimitive_iff.mpr hc
    have hbracket : c ≠ '[' := by
      rintro rfl
      exact nomatch hprim
    obtain ⟨hcount, hdrop⟩ := dimensions_append hbracket dimensions rest
    unfold skipField
    simp only [List.append_assoc, List.singleton_append, hcount, hdrop]
    rw [if_neg (Nat.not_lt.mpr hdims), if_pos hprim]
  | @object dimensions name hdims hne hname =>
    obtain ⟨a, name, rfl⟩ := List.exists_cons_of_ne_nil hne
    have hcut : Text.cutAt (· == ';') (a :: name ++ [';'] ++ rest) = some (a :: name, rest) := by
      refine cutAt_eq_some_iff.mpr ⟨';', rfl, fun b hb hsemi => ?_, by rw [List.append_assoc]; rfl⟩
      rw [beq_iff_eq.mp hsemi] at hb
      exact hname hb
    obtain ⟨hcount, hdrop⟩ :=
      dimensions_append (c := 'L') (by decide) dimensions (a :: name ++ [';'] ++ rest)
    unfold skipField
    simp only [List.append_assoc, List.cons_append] at hcount hdrop hcut ⊢
    simp only [hcount, hdrop, hcut]
    rw [if_neg (Nat.not_lt.mpr hdims), if_neg (by decide), if_pos trivial]

/-- **What is read as a field descriptor is one.** -/
theorem exists_field_of_skipField {offset : Nat} {s rest : List Char}
    (h : skipField offset s = .ok rest) : ∃ field, IsField field ∧ s = field ++ rest := by
  have hs := eq_dimensions_append s
  unfold skipField at h
  simp only at h
  split at h
  · cases h
  rename_i hdims
  have hdims : countDimensions s ≤ 255 := Nat.not_lt.mp hdims
  split at h
  · cases h
  rename_i c tail hdrop
  rw [hdrop] at hs
  split at h
  · rename_i hc
    cases h
    exact ⟨_, .primitive hdims (isPrimitive_iff.mp hc), by rw [List.append_assoc]; exact hs⟩
  split at h
  · rename_i hL
    subst hL
    split at h
    · rename_i a name rest' hcut
      cases h
      obtain ⟨semi, hsemi, hname, rfl⟩ := cutAt_eq_some_iff.mp hcut
      obtain rfl := beq_iff_eq.mp hsemi
      refine ⟨_, .object hdims (List.cons_ne_nil a name) (fun hmem => hname ';' hmem rfl), ?_⟩
      refine hs.trans ?_
      simp only [List.append_assoc, List.cons_append, List.nil_append]
    · cases h
  · cases h

/-- **Reading a field descriptor**, as an equivalence. -/
theorem skipField_eq_ok_iff {offset : Nat} {s rest : List Char} :
    skipField offset s = .ok rest ↔ ∃ field, IsField field ∧ s = field ++ rest := by
  constructor
  · exact exists_field_of_skipField
  · rintro ⟨field, hfield, rfl⟩
    exact skipField_append hfield offset rest

/-- **Reading a result descriptor**, as an equivalence. -/
theorem skipResult_eq_ok_iff {offset : Nat} {s rest : List Char} :
    skipResult offset s = .ok rest ↔ ∃ result, IsResult result ∧ s = result ++ rest := by
  unfold skipResult
  split
  · rename_i rest'
    constructor
    · intro h
      cases h
      exact ⟨['V'], .void, rfl⟩
    · rintro ⟨result, hresult, hs⟩
      cases hresult with
      | void =>
        cases hs
        rfl
      | field hfield =>
        -- No field descriptor starts with `V`.
        obtain ⟨c, tail, rfl, hc⟩ := hfield.exists_cons
        cases hs
        exact absurd hc (by decide)
  · rename_i hV
    rw [skipField_eq_ok_iff]
    constructor
    · rintro ⟨field, hfield, hs⟩
      exact ⟨field, .field hfield, hs⟩
    · rintro ⟨result, hresult, hs⟩
      cases hresult with
      | void => exact absurd hs (hV rest)
      | field hfield => exact ⟨result, hfield, hs⟩

/-! ## Reading the parameters -/

/-- **A field descriptor in front of others** is the first of them. -/
theorem fieldTexts_append {field : List Char} (h : IsField field) (offset : Nat) (s : List Char) :
    fieldTexts offset (field ++ s) =
      (fieldTexts (offset + Text.size field) s).map fun (fields, rest) => (field :: fields, rest) := by
  have hskip := skipField_append h offset s
  have htake : (field ++ s).take ((field ++ s).length - s.length) = field := by
    rw [List.length_append, Nat.add_sub_cancel, List.take_left]
  obtain ⟨c, tail, rfl, hc⟩ := h.exists_cons
  rw [fieldTexts]
  · split
    · rename_i flaw hflaw
      cases hflaw.symm.trans hskip
    · rename_i rest hrest
      cases hrest.symm.trans hskip
      rw [htake]
      dsimp only
      cases fieldTexts (offset + Text.size (c :: tail)) s <;> rfl
  · simp
  · rintro rest heq
    cases heq
    exact absurd hc (by decide)

/-- **Reading the parameters**, as an equivalence: a text splits in one way only. -/
theorem fieldTexts_eq_ok_iff {offset : Nat} {s rest : List Char} {fields : List (List Char)} :
    fieldTexts offset s = .ok (fields, rest) ↔
      (∀ field ∈ fields, IsField field) ∧ s = fields.flatten ++ ')' :: rest := by
  constructor
  · intro h
    fun_induction fieldTexts offset s generalizing fields rest with
    | case1 => exact nomatch h
    | case2 offset behind =>
      cases h
      exact ⟨fun _ hfield => absurd hfield List.not_mem_nil, rfl⟩
    | case3 => exact nomatch h
    | case4 => exact nomatch h
    | case5 offset s _ _ behind hskip field fields' rest' htail =>
      rename_i ih
      cases h
      obtain ⟨text, htext, rfl⟩ := exists_field_of_skipField hskip
      obtain ⟨hfields, hbehind⟩ := ih htail
      have hfield : field = text := by
        show (text ++ behind).take ((text ++ behind).length - behind.length) = text
        rw [List.length_append, Nat.add_sub_cancel, List.take_left]
      rw [hfield]
      refine ⟨List.forall_mem_cons.mpr ⟨htext, hfields⟩, ?_⟩
      rw [hbehind, List.flatten_cons, List.append_assoc]
  · rintro ⟨hfields, rfl⟩
    induction fields generalizing offset with
    | nil =>
      rw [List.flatten_nil, List.nil_append, fieldTexts]
    | cons field fields ih =>
      obtain ⟨hfield, hfields⟩ := List.forall_mem_cons.mp hfields
      rw [List.flatten_cons, List.append_assoc, fieldTexts_append hfield, ih hfields]
      rfl

/-! ## Reading a whole descriptor -/

theorem IsResult.exists_cons {s : List Char} (h : IsResult s) :
    ∃ c rest, s = c :: rest ∧ c ≠ '(' := by
  cases h with
  | void => exact ⟨'V', [], rfl, by decide⟩
  | field hfield =>
    obtain ⟨c, rest, rfl, hc⟩ := hfield.exists_cons
    refine ⟨c, rest, rfl, ?_⟩
    rintro rfl
    exact absurd hc (by decide)

/-- A text that starts with a parenthesis is a descriptor just if it is one of a method. -/
theorem isDescriptor_parenthesis_iff {s : List Char} :
    IsDescriptor ('(' :: s) ↔ ∃ (parameters : List (List Char)) (result : List Char),
      (∀ p ∈ parameters, IsField p) ∧ IsResult result ∧ s = parameters.flatten ++ ')' :: result := by
  constructor
  · intro h
    cases h with
    | value hvalue =>
      obtain ⟨c, rest, hs, hc⟩ := hvalue.exists_cons
      cases hs
      exact absurd rfl hc
    | method hparameters hresult => exact ⟨_, _, hparameters, hresult, rfl⟩
  · rintro ⟨parameters, result, hparameters, hresult, rfl⟩
    exact .method hparameters hresult

/-- Any other text is a descriptor just if it is one of a result. -/
theorem isDescriptor_iff_isResult {s : List Char} (h : ∀ rest, s ≠ '(' :: rest) :
    IsDescriptor s ↔ IsResult s := by
  constructor
  · intro hs
    cases hs with
    | value hvalue => exact hvalue
    | method _ _ => exact absurd rfl (h _)
  · exact .value

theorem typeOf_eq_fieldType {s : List Char} (h : ∀ rest, s ≠ '(' :: rest) :
    typeOf s = fieldType s := by
  unfold typeOf
  split
  · exact absurd rfl (h _)
  · rfl

/-- **Reading a whole descriptor**, as an equivalence. -/
theorem parseChars_eq_ok_iff {s : List Char} {t : Ty} :
    parseChars s = .ok t ↔ IsDescriptor s ∧ t = typeOf s := by
  unfold parseChars
  split
  · rename_i s
    rw [isDescriptor_parenthesis_iff]
    constructor
    · intro h
      obtain ⟨⟨parameters, rest⟩, hfields, h⟩ := bind_eq_ok_iff.mp h
      obtain ⟨rest', hrest, h⟩ := bind_eq_ok_iff.mp h
      split at h
      · rename_i hempty
        cases h
        rw [List.isEmpty_iff.mp hempty, skipResult_eq_ok_iff] at hrest
        obtain ⟨hparameters, hs⟩ := fieldTexts_eq_ok_iff.mp hfields
        obtain ⟨result, hresult, hrest⟩ := hrest
        rw [List.append_nil] at hrest
        exact ⟨⟨parameters, result, hparameters, hresult, hrest ▸ hs⟩, rfl⟩
      · exact nomatch h
    · rintro ⟨⟨parameters, result, hparameters, hresult, rfl⟩, rfl⟩
      have hrest : result = result ++ [] := (List.append_nil result).symm
      exact bind_eq_ok_iff.mpr ⟨(parameters, result), fieldTexts_eq_ok_iff.mpr ⟨hparameters, rfl⟩,
        bind_eq_ok_iff.mpr ⟨[], skipResult_eq_ok_iff.mpr ⟨result, hresult, hrest⟩, rfl⟩⟩
  · constructor
    · intro h
      cases h
      exact ⟨.value .void, rfl⟩
    · rintro ⟨-, rfl⟩
      rfl
  · rename_i hparenthesis hV
    rw [isDescriptor_iff_isResult hparenthesis, typeOf_eq_fieldType hparenthesis]
    constructor
    · intro h
      obtain ⟨rest, hrest, h⟩ := bind_eq_ok_iff.mp h
      split at h
      · rename_i hempty
        cases h
        rw [List.isEmpty_iff.mp hempty, skipField_eq_ok_iff] at hrest
        obtain ⟨field, hfield, rfl⟩ := hrest
        rw [List.append_nil]
        exact ⟨.field hfield, rfl⟩
      · exact nomatch h
    · rintro ⟨hresult, rfl⟩
      cases hresult with
      | void => exact absurd rfl hV
      | field hfield =>
        have hrest : s = s ++ [] := (List.append_nil s).symm
        exact bind_eq_ok_iff.mpr ⟨[], skipField_eq_ok_iff.mpr ⟨s, hfield, hrest⟩, rfl⟩

theorem IsDescriptor.ne_nil {s : List Char} (h : IsDescriptor s) : s ≠ [] := by
  cases h with
  | value hvalue =>
    obtain ⟨c, rest, rfl, -⟩ := hvalue.exists_cons
    exact List.cons_ne_nil c rest
  | method _ _ => exact List.cons_ne_nil _ _

/-- **What is accepted, and with which type.** -/
theorem parse_eq_ok_iff {text : String} {t : Ty} :
    parse text = .ok t ↔ IsDescriptor text.toList ∧ t = typeOf text.toList := by
  unfold parse
  split
  · rename_i hempty
    constructor
    · exact nofun
    · rintro ⟨h, -⟩
      exact absurd (List.isEmpty_iff.mp hempty) h.ne_nil
  · rw [← parseChars_eq_ok_iff]
    cases parseChars text.toList with
    | ok t' => exact ⟨fun h => by cases h; rfl, fun h => by cases h; rfl⟩
    | error flaw => exact ⟨nofun, nofun⟩

/-! ## Types and their descriptors -/

/-- The type of a text that starts neither like an array nor like a class. -/
theorem fieldType_of_letter {c : Char} (hbracket : c ≠ '[') (hL : c ≠ 'L') (s : List Char) :
    fieldType (c :: s) = (ofLetter? c).getD .absent := by
  unfold fieldType
  split
  · rename_i heq
    cases heq
    exact absurd rfl hbracket
  · rename_i heq
    cases heq
    exact absurd rfl hL
  · rename_i heq
    cases heq
    rfl
  · rename_i heq
    exact nomatch heq

theorem sort_ofLetter? {c : Char} (hbracket : c ≠ '[') (hL : c ≠ 'L') (hparenthesis : c ≠ '(') :
    ((ofLetter? c).getD .absent).sort = sortOf c := by
  unfold ofLetter?
  split
  case h_10 =>
    -- The three characters that are left of the table are those excluded.
    unfold sortOf
    split <;> first | contradiction | rfl
  all_goals rfl

/-- The sort of the type of a descriptor is the one that the first character determines. -/
theorem sort_typeOf (c : Char) (s : List Char) : (typeOf (c :: s)).sort = sortOf c := by
  by_cases hparenthesis : c = '('
  · subst hparenthesis
    rfl
  have htype : typeOf (c :: s) = fieldType (c :: s) := by
    refine typeOf_eq_fieldType fun rest heq => ?_
    cases heq
    exact hparenthesis rfl
  rw [htype]
  by_cases hbracket : c = '['
  · subst hbracket
    rfl
  by_cases hL : c = 'L'
  · subst hL
    rfl
  rw [fieldType_of_letter hbracket hL, sort_ofLetter? hbracket hL hparenthesis]

theorem IsField.descriptor_fieldType {s : List Char} (h : IsField s) :
    (fieldType s).descriptor = String.ofList s := by
  cases h with
  | @primitive dimensions c hdims hc =>
    cases dimensions with
    | zero =>
      simp only [List.mem_cons, List.not_mem_nil, or_false] at hc
      rcases hc with rfl | rfl | rfl | rfl | rfl | rfl | rfl | rfl <;> rfl
    | succ n => rfl
  | @object dimensions name hdims hne hname =>
    cases dimensions with
    | zero => rfl
    | succ n => rfl

/-- **The type of a descriptor has that descriptor.** -/
theorem IsDescriptor.descriptor_typeOf {s : List Char} (h : IsDescriptor s) :
    (typeOf s).descriptor = String.ofList s := by
  cases h with
  | value hvalue =>
    cases hvalue with
    | void => rfl
    | field hfield =>
      obtain ⟨c, rest, rfl, hc⟩ := hfield.exists_cons
      rw [typeOf_eq_fieldType, hfield.descriptor_fieldType]
      rintro rest' heq
      cases heq
      exact absurd hc (by decide)
  | method _ _ => rfl

/-! ## Acceptance and refusal -/

/-- The wording of a refusal names its kind first. -/
theorem exists_detail (e : DescriptorError) :
    ∃ detail, e.message = "malformed descriptor: " ++ detail := by
  cases e with
  | empty => exact ⟨"empty", rfl⟩
  | flawed text flaw =>
    refine ⟨Text.quote text ++ (": " ++ flaw.message), ?_⟩
    show "malformed descriptor: " ++ Text.quote text ++ ": " ++ flaw.message = _
    rw [String.append_assoc, String.append_assoc]
  | notMethod text =>
    refine ⟨Text.quote text ++ " is not a method descriptor", ?_⟩
    show "malformed descriptor: " ++ Text.quote text ++ " is not a method descriptor" = _
    rw [String.append_assoc]

/-- A refusal is of the empty text, or names the text and its flaw. -/
theorem parse_eq_error {text : String} {e : DescriptorError} (h : parse text = .error e) :
    e = .empty ∨ ∃ flaw, e = .flawed text flaw := by
  unfold parse at h
  split at h
  · cases h
    exact Or.inl rfl
  · split at h
    · exact nomatch h
    · cases h
      exact Or.inr ⟨_, rfl⟩

/-- **Exactly the descriptors of the grammar are accepted.** The type of an accepted text has this text as
its descriptor and the sort that its first character determines. Any other text is refused as malformed. -/
theorem parse_exactly_grammar (text : String) :
    ((∃ t, parse text = .ok t) ↔ IsDescriptor text.toList) ∧
    (∀ t, parse text = .ok t → t.descriptor = text ∧
      ∃ c rest, text.toList = c :: rest ∧ t.sort = sortOf c) ∧
    ∀ e, parse text = .error e → (e = .empty ∨ ∃ flaw, e = .flawed text flaw) ∧
      ∃ detail, e.message = "malformed descriptor: " ++ detail := by
  refine ⟨⟨?_, ?_⟩, ?_, ?_⟩
  · rintro ⟨t, ht⟩
    exact (parse_eq_ok_iff.mp ht).1
  · intro h
    exact ⟨typeOf text.toList, parse_eq_ok_iff.mpr ⟨h, rfl⟩⟩
  · intro t ht
    obtain ⟨h, rfl⟩ := parse_eq_ok_iff.mp ht
    refine ⟨by rw [h.descriptor_typeOf, String.ofList_toList], ?_⟩
    obtain ⟨c, rest, hs⟩ := List.exists_cons_of_ne_nil h.ne_nil
    exact ⟨c, rest, hs, by rw [hs, sort_typeOf]⟩
  · intro e he
    exact ⟨parse_eq_error he, exists_detail e⟩

end Desc

end StackMap
