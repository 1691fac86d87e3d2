import StackMap.Proofs.Desc.Grammar

/-!
# `Proofs.Desc.Parts`: the parts of a method descriptor

A method descriptor is read forward when it is accepted and when its parameters are asked for, so these
two agree on where each parameter ends. The result is found from the other end, behind the last `)`. The
name of a class may hold a `)`: in a parameter it does no harm, but in the result it is taken for the end
of the parameters, and what is behind it is not the result.

## Contents

* `Ty.afterLast_append`, `Ty.length_afterLast_lt`: the text behind the last `)`.
* `Desc.exists_parts`: an accepted method descriptor is one of the grammar.
* `Ty.arguments_of_parts`, `Ty.result_of_parts`: the projections of its type.
* `Desc.parts_compose_iff`: the parts make up the whole just if no `)` stands in the result.
* `Desc.parts_not_compose`: a descriptor whose result is lost.
-/

namespace StackMap

/-! ## The text behind the last `)` -/

namespace Ty

theorem afterLast_append {back : List Char} (h : ')' ∉ back) (front : List Char) :
    afterLast (· == ')') (front ++ ')' :: back) = back := by
  have hreverse : (front ++ ')' :: back).reverse = back.reverse ++ (')' :: front.reverse) := by simp
  have hkeep : ∀ a ∈ back.reverse, (!(a == ')')) = true := by
    intro a ha
    have hne : a ≠ ')' := by
      rintro rfl
      exact h (List.mem_reverse.mp ha)
    simpa using hne
  unfold afterLast
  rw [hreverse, List.takeWhile_append_of_pos hkeep,
    List.takeWhile_cons_of_neg (p := fun a => !(a == ')')) (by decide), List.append_nil,
    List.reverse_reverse]

/-- Where a `)` stands in the second part of a text, what is behind the last one is shorter than that
part. -/
theorem length_afterLast_lt {back : List Char} (h : ')' ∈ back) (front : List Char) :
    (afterLast (· == ')') (front ++ back)).length < back.length := by
  -- The last one is the first one from the other end.
  obtain ⟨behind, before, hback, hbehind⟩ := List.eq_append_cons_of_mem (List.mem_reverse.mpr h)
  have hback : back = before.reverse ++ ')' :: behind.reverse := by
    rw [← List.reverse_reverse back, hback]
    simp
  have hbehind : ')' ∉ behind.reverse := fun hmem => hbehind (List.mem_reverse.mp hmem)
  rw [hback, ← List.append_assoc, afterLast_append hbehind, List.length_append, List.length_cons]
  omega

/-- The text behind the last `)` ends as the whole text does. -/
theorem ended_afterLast {s : List Char} (h : Desc.Ended s) : Desc.Ended (afterLast (· == ')') s) := by
  obtain ⟨front, c, rfl, hc, hne⟩ := h
  unfold afterLast
  rw [List.reverse_append, List.reverse_singleton, List.singleton_append,
    List.takeWhile_cons_of_pos (by simpa using hne), List.reverse_cons]
  exact ⟨_, c, rfl, hc, hne⟩

end Ty

/-! ## Accepted method descriptors -/

namespace Desc

theorem sortOf_eq_method_iff {c : Char} : sortOf c = .method ↔ c = '(' := by
  unfold sortOf
  split <;> simp_all

/-- **An accepted method descriptor** has field descriptors between its parentheses and a result behind
them. -/
theorem exists_parts {text : String} {t : Ty} (h : parse text = .ok t) (hsort : t.sort = .method) :
    t = .method text ∧ ∃ (parameters : List (List Char)) (result : List Char),
      (∀ p ∈ parameters, IsField p) ∧ IsResult result ∧
      text.toList = '(' :: (parameters.flatten ++ ')' :: result) := by
  obtain ⟨hdescriptor, rfl⟩ := parse_eq_ok_iff.mp h
  obtain ⟨c, s, hs⟩ := List.exists_cons_of_ne_nil hdescriptor.ne_nil
  have hc : c = '(' := by
    rw [hs, sort_typeOf] at hsort
    exact sortOf_eq_method_iff.mp hsort
  subst hc
  have htype : typeOf text.toList = .method text := by
    rw [hs]
    show Ty.method (String.ofList ('(' :: s)) = .method text
    rw [← hs, String.ofList_toList]
  rw [hs, isDescriptor_parenthesis_iff] at hdescriptor
  obtain ⟨parameters, result, hparameters, hresult, rfl⟩ := hdescriptor
  exact ⟨htype, parameters, result, hparameters, hresult, hs⟩

theorem IsResult.ne_nil {s : List Char} (h : IsResult s) : s ≠ [] := (IsDescriptor.value h).ne_nil

/-- The type of a result descriptor is the one that its first character determines. -/
theorem IsResult.typeOf_eq {s : List Char} (h : IsResult s) : typeOf s = fieldType s := by
  obtain ⟨c, rest, rfl, hc⟩ := h.exists_cons
  refine typeOf_eq_fieldType fun rest' heq => ?_
  cases heq
  exact hc rfl

/-- A result descriptor alone is accepted, with a type that is no method and has this descriptor. -/
theorem IsResult.parse_eq {s : List Char} (h : IsResult s) :
    parse (String.ofList s) = .ok (fieldType s) ∧ (fieldType s).sort ≠ .method ∧
      (fieldType s).descriptor = String.ofList s := by
  refine ⟨?_, ?_, ?_⟩
  · rw [parse_eq_ok_iff, String.toList_ofList, h.typeOf_eq]
    exact ⟨.value h, rfl⟩
  · obtain ⟨c, rest, rfl, hc⟩ := h.exists_cons
    rw [← h.typeOf_eq, sort_typeOf]
    exact fun hsort => hc (sortOf_eq_method_iff.mp hsort)
  · rw [← h.typeOf_eq, (IsDescriptor.value h).descriptor_typeOf]

/-- The type of a field descriptor is not `void`. -/
theorem IsField.fieldType_ne_void {s : List Char} (h : IsField s) : fieldType s ≠ .void := by
  intro hvoid
  have hV : String.ofList s = "V" := by
    rw [← h.descriptor_fieldType, hvoid]
    rfl
  obtain ⟨c, rest, rfl, hc⟩ := h.exists_cons
  have hs : c :: rest = ['V'] := by
    rw [← String.toList_ofList (l := c :: rest), hV]
    rfl
  cases hs
  exact absurd hc (by decide)

/-- A value of the type of a field descriptor takes a local variable. -/
theorem IsField.slots_fieldType_pos {s : List Char} (h : IsField s) : 0 < (fieldType s).slots := by
  cases h with
  | @primitive dimensions c _ hc =>
    cases dimensions with
    | zero =>
      simp only [List.mem_cons, List.not_mem_nil, or_false] at hc
      rcases hc with rfl | rfl | rfl | rfl | rfl | rfl | rfl | rfl <;> decide
    | succ dimensions => exact Nat.one_pos
  | @object dimensions name _ _ _ =>
    cases dimensions with
    | zero => exact Nat.one_pos
    | succ dimensions => exact Nat.one_pos

/-- The descriptor of the type that is read off a text is not longer than the text. -/
theorem length_descriptor_fieldType_le (s : List Char) :
    (fieldType s).descriptor.toList.length ≤ s.length := by
  unfold fieldType
  split
  · exact Nat.le_of_eq (congrArg List.length String.toList_ofList)
  · exact Nat.le_of_eq (congrArg List.length String.toList_ofList)
  · rename_i c rest _ _
    unfold ofLetter?
    split <;> simp [Ty.descriptor]
  · simp [Ty.descriptor]

end Desc

namespace Ty

theorem ofField_eq_fieldType {s : List Char} (h : s ≠ []) : ofField s = .ok (Desc.fieldType s) := by
  unfold ofField
  rw [if_neg]
  simpa using h

variable {d : String} {parameters : List (List Char)} {result : List Char}

/-- **The parameter types** are those of the field descriptors between the parentheses. -/
theorem arguments_of_parts (hparameters : ∀ p ∈ parameters, Desc.IsField p)
    (hd : d.toList = '(' :: (parameters.flatten ++ ')' :: result)) :
    (Ty.method d).arguments = .ok (parameters.map Desc.fieldType) := by
  have hfields : Desc.fieldTexts 1 (parameters.flatten ++ ')' :: result) = .ok (parameters, result) :=
    Desc.fieldTexts_eq_ok_iff.mpr ⟨hparameters, rfl⟩
  have hparenthesis : String.utf8EncodeChar '(' = [0x28] := rfl
  have harguments : (Ty.method d).arguments = parameters.mapM ofField := by
    unfold arguments
    simp only [hd, hparenthesis, hfields]
  rw [harguments]
  exact mapM_eq_ok_map fun p hp => ofField_eq_fieldType (Desc.IsResult.field (hparameters p hp)).ne_nil

/-- **The result type** is that of the result descriptor if no `)` stands in it, and otherwise that of a
text which is shorter. -/
theorem result_of_parts (hresult : Desc.IsResult result)
    (hd : d.toList = '(' :: (parameters.flatten ++ ')' :: result)) :
    ∃ s, (Ty.method d).result = .ok (Desc.fieldType s) ∧
      (')' ∉ result → s = result) ∧ (')' ∈ result → s.length < result.length) := by
  have hd : d.toList = ('(' :: parameters.flatten) ++ ')' :: result := hd
  have heq : (Ty.method d).result = ofField (afterLast (· == ')') d.toList) := rfl
  by_cases hmem : ')' ∈ result
  · have hsplit : d.toList = ('(' :: parameters.flatten ++ [')']) ++ result := by
      rw [hd, List.append_assoc, List.singleton_append]
    have hshorter := length_afterLast_lt hmem ('(' :: parameters.flatten ++ [')'])
    rw [← hsplit] at hshorter
    have hended : Desc.Ended d.toList := by
      rw [hsplit]
      exact hresult.ended.append _
    obtain ⟨c, hc, -⟩ := (ended_afterLast hended).exists_ne
    exact ⟨_, heq.trans (ofField_eq_fieldType (List.ne_nil_of_mem hc)), fun h => absurd hmem h,
      fun _ => hshorter⟩
  · rw [hd, afterLast_append hmem] at heq
    exact ⟨result, heq.trans (ofField_eq_fieldType hresult.ne_nil), fun _ => rfl,
      fun h => absurd h hmem⟩

end Ty

/-! ## The parts make up the whole -/

namespace Desc

/-- A text of a method descriptor, put together from the descriptors of its parts. -/
theorem ofList_parts {parameters : List (List Char)} (hparameters : ∀ p ∈ parameters, IsField p)
    (result : List Char) :
    String.ofList ('(' :: (parameters.flatten ++ ')' :: result)) =
      "(" ++ String.join ((parameters.map fieldType).map Ty.descriptor) ++ ")" ++
        String.ofList result := by
  have hparts : (parameters.map fieldType).map Ty.descriptor = parameters.map String.ofList := by
    rw [List.map_map]
    exact List.map_congr_left fun p hp => (hparameters p hp).descriptor_fieldType
  apply String.toList_injective
  rw [hparts]
  simp only [String.toList_append, String.toList_join, String.toList_ofList, List.flatMap_map,
    List.flatMap_id']
  show _ = ['('] ++ parameters.flatten ++ [')'] ++ result
  simp only [List.append_assoc, List.cons_append, List.nil_append]

/-- **The parts of an accepted method descriptor make up the whole** just if no `)` stands in its result.
The parameters are those of the descriptor in any case; the result is lost where a `)` stands in it. -/
theorem parts_compose_iff {text : String} {t : Ty} (h : parse text = .ok t)
    (hsort : t.sort = .method) :
    ∃ (arguments : List Ty) (r : Ty) (result : String),
      t.arguments = .ok arguments ∧ t.result = .ok r ∧
      (∀ a ∈ arguments, a ≠ .void ∧ parse a.descriptor = .ok a) ∧
      text = "(" ++ String.join (arguments.map Ty.descriptor) ++ ")" ++ result ∧
      (∃ u, parse result = .ok u ∧ u.sort ≠ .method ∧ u.descriptor = result ∧
        (r = u ↔ ')' ∉ result.toList)) ∧
      (text = "(" ++ String.join (arguments.map Ty.descriptor) ++ ")" ++ r.descriptor ↔
        ')' ∉ result.toList) := by
  obtain ⟨rfl, parameters, result, hparameters, hresult, htext⟩ := exists_parts h hsort
  obtain ⟨s, hs, hwhole, hshorter⟩ := Ty.result_of_parts hresult htext
  have hcompose : text = "(" ++ String.join ((parameters.map fieldType).map Ty.descriptor) ++ ")" ++
      String.ofList result := by
    rw [← ofList_parts hparameters, ← htext, String.ofList_toList]
  obtain ⟨hparse, hsort', hdescriptor⟩ := hresult.parse_eq
  -- The descriptor of what is found is the result descriptor just if no parenthesis stands in that one.
  have hfound : (fieldType s).descriptor = String.ofList result ↔ ')' ∉ result := by
    constructor
    · intro heq hmem
      have hle := length_descriptor_fieldType_le s
      rw [heq, String.toList_ofList] at hle
      exact absurd (hshorter hmem) (Nat.not_lt.mpr hle)
    · intro hmem
      rw [hwhole hmem, hdescriptor]
  refine ⟨parameters.map fieldType, fieldType s, String.ofList result,
    Ty.arguments_of_parts hparameters htext, hs, ?_, hcompose, ?_, ?_⟩
  · rw [List.forall_mem_map]
    intro p hp
    have hfield := hparameters p hp
    obtain ⟨hp, -, hpd⟩ := (IsResult.field hfield).parse_eq
    exact ⟨hfield.fieldType_ne_void, by rw [hpd, hp]⟩
  · refine ⟨fieldType result, hparse, hsort', hdescriptor, ?_⟩
    rw [String.toList_ofList]
    constructor
    · intro heq
      rw [heq] at hfound
      exact hfound.mp hdescriptor
    · intro hmem
      rw [hwhole hmem]
  · rw [String.toList_ofList, ← hfound]
    constructor
    · intro heq
      exact (String.append_right_inj _).mp (heq.symm.trans hcompose)
    · intro heq
      rw [heq]
      exact hcompose

/-! ## A parenthesis in the name of a class -/

theorem isField_className {name : List Char} (hne : name ≠ []) (hname : ';' ∉ name) :
    IsField ('L' :: (name ++ [';'])) :=
  @IsField.object 0 name (Nat.zero_le 255) hne hname

/-- The parameters of a descriptor with a `)` in the name of a parameter's class. -/
def inParameter : List (List Char) := ["La)b;".toList, "[J".toList]

theorem isField_inParameter : ∀ p ∈ inParameter, IsField p := by
  have hclass : IsField "La)b;".toList :=
    @isField_className ['a', ')', 'b'] (by decide) (by decide)
  have harray : IsField "[J".toList := @IsField.primitive 1 'J' (by decide) (by decide)
  simp only [inParameter, List.forall_mem_cons]
  exact ⟨hclass, harray, fun _ h => absurd h List.not_mem_nil⟩

theorem parse_inParameter : parse "(La)b;[J)V" = .ok (.method "(La)b;[J)V") :=
  parse_eq_ok_iff.mpr ⟨.method isField_inParameter .void, rfl⟩

theorem parts_compose_iff_inParameter :
    ∃ arguments r, (Ty.method "(La)b;[J)V").arguments = .ok arguments ∧
      (Ty.method "(La)b;[J)V").result = .ok r ∧
      "(La)b;[J)V" = "(" ++ String.join (arguments.map Ty.descriptor) ++ ")" ++ r.descriptor := by
  obtain ⟨arguments, r, result, harguments, hr, -, htext, -, hcompose⟩ :=
    parts_compose_iff parse_inParameter rfl
  refine ⟨arguments, r, harguments, hr, hcompose.mpr ?_⟩
  have hread : (Ty.method "(La)b;[J)V").arguments = .ok [.object "La)b;", .array "[J"] :=
    @Ty.arguments_of_parts _ inParameter ['V'] isField_inParameter rfl
  cases harguments.symm.trans hread
  have hfront : "(" ++ String.join ([.object "La)b;", .array "[J"].map Ty.descriptor) ++ ")" =
      "(La)b;[J)" := by decide
  have hwhole : "(La)b;[J)" ++ "V" = "(La)b;[J)V" := by decide
  rw [hfront] at htext
  rw [← (String.append_right_inj _).mp (hwhole.trans htext)]
  decide

theorem parse_inResult : parse "()La)b;" = .ok (.method "()La)b;") := by
  have hclass : IsField "La)b;".toList :=
    @isField_className ['a', ')', 'b'] (by decide) (by decide)
  exact parse_eq_ok_iff.mpr
    ⟨@IsDescriptor.method [] _ (fun _ h => absurd h List.not_mem_nil) (.field hclass), rfl⟩

/-- **The parts of an accepted method descriptor need not make up the whole.** -/
theorem parts_not_compose :
    ¬ ∀ (text : String) (t : Ty) (arguments : List Ty) (r : Ty), parse text = .ok t →
      t.sort = .method → t.arguments = .ok arguments → t.result = .ok r →
      text = "(" ++ String.join (arguments.map Ty.descriptor) ++ ")" ++ r.descriptor := by
  intro h
  have harguments : (Ty.method "()La)b;").arguments = .ok [] :=
    @Ty.arguments_of_parts _ [] _ (fun _ h => absurd h List.not_mem_nil) rfl
  have hresult : (Ty.method "()La)b;").result = .ok .absent := rfl
  exact absurd (h _ _ _ _ parse_inResult rfl harguments hresult) (by decide)

end Desc

end StackMap
