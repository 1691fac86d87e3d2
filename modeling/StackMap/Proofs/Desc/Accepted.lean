import StackMap.Proofs.Desc.Parts

/-!
# `Proofs.Desc.Accepted`: the projections of accepted types

The projections of a type trust its descriptor: they answer for any text, and fail where the text ends too
early. A descriptor that is accepted ends with a letter or with `;`, and so does every field descriptor in
it. This alone keeps the projections from its end: what stands behind a `[` or behind the last `)` is not
empty.

## Contents

* `Ty.Whole`, `Desc.whole_of_parse`: types whose arrays have components, such as those that are accepted.
* `Ty.exists_arguments`, `Ty.exists_result`, `Ty.exists_component`: the projections of accepted types.
-/

namespace StackMap

namespace Desc

/-- What is accepted as a method descriptor. -/
theorem parse_of_parseMethod {text : String} {t : Ty} (h : parseMethod text = .ok t) :
    ∃ d, t = .method d ∧ parse text = .ok (.method d) := by
  obtain ⟨t', hparse, h⟩ := bind_eq_ok_iff.mp h
  cases t' with
  | method d =>
    cases h
    exact ⟨d, rfl, hparse⟩
  | _ => cases h

theorem parseMethod_of_parse {text d : String} (h : parse text = .ok (.method d)) :
    parseMethod text = .ok (.method d) := by
  unfold parseMethod
  rw [h]
  rfl

end Desc

/-! ## Types whose arrays have components -/

/-- **The type of a value**, and if it is an array, not only of `[`. -/
def Ty.Whole : Ty → Prop
  | .array d => ∃ c ∈ d.toList.tail, c ≠ '['
  | .method _ => False
  | _ => True

namespace Desc

/-- A text that is not only of `[` has such a type. -/
theorem whole_fieldType {s : List Char} (h : ∃ c ∈ s, c ≠ '[') : (fieldType s).Whole := by
  obtain ⟨c, hc, hne⟩ := h
  unfold fieldType
  split
  · rename_i rest
    rcases List.mem_cons.mp hc with rfl | hc
    · exact absurd rfl hne
    · exact ⟨c, by rwa [String.toList_ofList, List.tail_cons], hne⟩
  · trivial
  · unfold ofLetter?
    split <;> trivial
  · trivial

theorem whole_typeOf {s : List Char} (h : IsDescriptor s) (hmethod : ∀ d, typeOf s ≠ .method d) :
    (typeOf s).Whole := by
  unfold typeOf at hmethod ⊢
  split
  · exact absurd rfl (hmethod _)
  · exact whole_fieldType h.ended.exists_ne

/-- **The type of an accepted text that is no method descriptor.** -/
theorem whole_of_parse {text : String} {t : Ty} (h : parse text = .ok t)
    (hmethod : ∀ d, t ≠ .method d) : t.Whole := by
  obtain ⟨hdescriptor, rfl⟩ := parse_eq_ok_iff.mp h
  exact whole_typeOf hdescriptor hmethod

theorem fieldType_ne_method (s : List Char) (d : String) : fieldType s ≠ .method d := by
  unfold fieldType
  split
  · exact nofun
  · exact nofun
  · unfold ofLetter?
    split <;> exact nofun
  · exact nofun

end Desc

namespace Ty

theorem ofField_eq_ok {s : List Char} (h : ∃ c ∈ s, c ≠ '[') :
    ∃ t, ofField s = .ok t ∧ t.Whole := by
  refine ⟨Desc.fieldType s, ?_, Desc.whole_fieldType h⟩
  obtain ⟨c, hc, -⟩ := h
  unfold ofField
  rw [if_neg]
  simpa using List.ne_nil_of_mem hc

/-- A field descriptor that is not checked has a type of a value, unless it is empty. -/
theorem ofField_outcome (s : List Char) :
    (∃ t, ofField s = .ok t ∧ ∀ d, t ≠ .method d) ∨ ofField s = .error .endOfText := by
  unfold ofField
  split
  · exact Or.inr rfl
  · exact Or.inl ⟨_, rfl, Desc.fieldType_ne_method s⟩

/-- **An array that is not only of `[` has a component.** -/
theorem exists_component {d : String} (h : (Ty.array d).Whole) :
    ∃ t, (Ty.array d).component = .ok t ∧ t.Whole := by
  show ∃ t, ofField (d.toList.drop 1) = .ok t ∧ t.Whole
  rw [List.drop_one]
  exact ofField_eq_ok h

/-- The text of an accepted method descriptor. -/
theorem method_of_parse {text d : String} (h : Desc.parse text = .ok (.method d)) :
    Desc.Ended d.toList ∧ ∃ (parameters : List (List Char)) (result : List Char),
      (∀ p ∈ parameters, Desc.IsField p) ∧ d.toList = '(' :: (parameters.flatten ++ ')' :: result) := by
  obtain ⟨hd, parameters, result, hparameters, hresult, htext⟩ := Desc.exists_parts h rfl
  cases hd
  exact ⟨(Desc.parse_eq_ok_iff.mp h).1.ended, parameters, result, hparameters, htext⟩

/-- **An accepted method descriptor has a result type.** -/
theorem exists_result {text d : String} (h : Desc.parse text = .ok (.method d)) :
    ∃ t, (Ty.method d).result = .ok t ∧ t.Whole :=
  ofField_eq_ok (ended_afterLast (method_of_parse h).1).exists_ne

/-- **An accepted method descriptor has parameter types.** -/
theorem exists_arguments {text d : String} (h : Desc.parse text = .ok (.method d)) :
    ∃ ts, (Ty.method d).arguments = .ok ts ∧ ∀ t ∈ ts, t.Whole := by
  obtain ⟨-, parameters, result, hparameters, hd⟩ := method_of_parse h
  refine ⟨_, arguments_of_parts hparameters hd, List.forall_mem_map.mpr fun p hp => ?_⟩
  exact Desc.whole_fieldType (hparameters p hp).ended.exists_ne

end Ty

end StackMap
