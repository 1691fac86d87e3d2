import StackMap.Frame.Execute
import StackMap.Proofs.Desc.Parts

/-!
# `Proofs.Desc.Arrays`: arrays and their components

The descriptor of an array is some `[` in front of the descriptor of its element. The projections trust that,
and take off one `[` or all of them; what they leave is a field descriptor again, so that each of them gives the
type that the shorter text is accepted with. Taking components again and again comes to the element in as many
steps as there are dimensions.

An array of a class or array is made under a descriptor that is put together from the name, in one of two ways.
It comes apart again when a component is loaded: what is found is a value of the class or array of that name.

## Contents

* `Desc.IsElement`: field descriptors without dimensions.
* `Desc.IsField.exists_element`: a field descriptor is some dimensions in front of an element.
* `Ty.componentAt`: components of components.
* `Ty.component_fieldType`, `Ty.componentAt_fieldType`, `Ty.element_fieldType`: the projections of arrays.
* `Transfer.component_of_arrayOf`: the component of an array that is made under the name of a class or array.
* `array_projects`: both together.
-/

namespace StackMap

namespace Desc

/-! ## Dimensions and elements -/

/-- **Field descriptors without dimensions.** Up to 255 dimensions may stand in front of one. -/
structure IsElement (s : List Char) : Prop where
  field : ∀ n ≤ 255, IsField (List.replicate n '[' ++ s)
  first : ∃ c rest, s = c :: rest ∧ c ≠ '['

/-- **A field descriptor is some dimensions in front of an element.** -/
theorem IsField.exists_element {s : List Char} (h : IsField s) :
    ∃ k base, k ≤ 255 ∧ IsElement base ∧ s = List.replicate k '[' ++ base := by
  cases h with
  | @primitive dimensions c hdims hc =>
    refine ⟨dimensions, [c], hdims, ⟨fun n hn => .primitive hn hc, c, [], rfl, ?_⟩, rfl⟩
    rintro rfl
    exact absurd hc (by decide)
  | @object dimensions name hdims hne hname =>
    exact ⟨dimensions, 'L' :: (name ++ [';']), hdims,
      ⟨fun n hn => .object hn hne hname, 'L', name ++ [';'], rfl, by decide⟩, rfl⟩

namespace IsElement

variable {base : List Char}

/-- In front of an element all dimensions are counted, and taken off. -/
theorem dimensions_append (h : IsElement base) (n : Nat) :
    countDimensions (List.replicate n '[' ++ base) = n ∧
      (List.replicate n '[' ++ base).dropWhile (· == '[') = base := by
  obtain ⟨c, rest, rfl, hc⟩ := h.first
  exact Desc.dimensions_append hc n rest

theorem ne_nil (h : IsElement base) (n : Nat) : List.replicate n '[' ++ base ≠ [] := by
  obtain ⟨c, rest, rfl, -⟩ := h.first
  exact List.append_ne_nil_of_right_ne_nil _ (List.cons_ne_nil c rest)

/-- An element is accepted behind any number of dimensions up to 255. -/
theorem parse_eq (h : IsElement base) {n : Nat} (hn : n ≤ 255) :
    parse (String.ofList (List.replicate n '[' ++ base)) = .ok (fieldType (List.replicate n '[' ++ base)) :=
  (IsResult.field (h.field n hn)).parse_eq.1

theorem fieldType_ne_void (h : IsElement base) : fieldType base ≠ .void :=
  (h.field 0 (Nat.zero_le 255)).fieldType_ne_void

/-- The type of an element is no array. -/
theorem sort_fieldType (h : IsElement base) : (fieldType base).sort ≠ .array := by
  have hresult : IsResult base := .field (h.field 0 (Nat.zero_le 255))
  obtain ⟨c, rest, rfl, hc⟩ := h.first
  rw [← hresult.typeOf_eq, sort_typeOf]
  intro hsort
  have hbracket : c = '[' := by
    unfold sortOf at hsort
    split at hsort <;> first | rfl | exact nomatch hsort
  exact hc hbracket

end IsElement

/-- **An accepted descriptor of an array** is one to 255 dimensions in front of an element. -/
theorem exists_element_of_parse {text : String} {t : Ty} (h : parse text = .ok t) (hsort : t.sort = .array) :
    ∃ n base, n + 1 ≤ 255 ∧ IsElement base ∧ text.toList = List.replicate (n + 1) '[' ++ base ∧
      t = fieldType (List.replicate (n + 1) '[' ++ base) := by
  obtain ⟨hdescriptor, rfl⟩ := parse_eq_ok_iff.mp h
  generalize text.toList = s at hdescriptor hsort
  have hresult : IsResult s := by
    refine (isDescriptor_iff_isResult ?_).mp hdescriptor
    rintro rest rfl
    exact nomatch hsort
  rw [hresult.typeOf_eq] at hsort ⊢
  cases hresult with
  | void => exact nomatch hsort
  | field hfield =>
    obtain ⟨k, base, hk, hbase, rfl⟩ := hfield.exists_element
    cases k with
    | zero => exact absurd hsort hbase.sort_fieldType
    | succ n => exact ⟨n, base, hk, hbase, rfl, rfl⟩

end Desc

namespace Ty

open Desc

variable {base : List Char}

/-! ## Projections -/

/-- **The component of a component of …**, so many times. -/
def componentAt : Nat → Ty → Except TypeFault Ty
  | 0, t => .ok t
  | n + 1, t => do (← t.component).componentAt n

/-- The type of a text with dimensions is the array of this descriptor. -/
theorem fieldType_dimensions (n : Nat) (s : List Char) :
    fieldType (List.replicate (n + 1) '[' ++ s) =
      .array (String.ofList ('[' :: (List.replicate n '[' ++ s))) := rfl

/-- **A component has one dimension less.** -/
theorem component_fieldType (h : IsElement base) (n : Nat) :
    (fieldType (List.replicate (n + 1) '[' ++ base)).component =
      .ok (fieldType (List.replicate n '[' ++ base)) := by
  rw [fieldType_dimensions, component, String.toList_ofList, List.drop_one, List.tail_cons,
    ofField_eq_fieldType (h.ne_nil n)]

/-- **The element has none.** -/
theorem element_fieldType (h : IsElement base) (n : Nat) :
    (fieldType (List.replicate (n + 1) '[' ++ base)).element = .ok (fieldType base) := by
  have hdrop : ('[' :: (List.replicate n '[' ++ base)).dropWhile (· == '[') = base :=
    (h.dimensions_append (n + 1)).2
  rw [fieldType_dimensions, element, String.toList_ofList, hdrop]
  exact ofField_eq_fieldType (h.ne_nil 0)

/-- The dimensions of a type are those of its descriptor. -/
theorem dimensions_fieldType (h : IsElement base) {n : Nat} (hn : n ≤ 255) :
    (fieldType (List.replicate n '[' ++ base)).dimensions = n := by
  rw [dimensions, (h.field n hn).descriptor_fieldType, String.toList_ofList]
  exact (h.dimensions_append n).1

/-- **Components of components** have as many dimensions less as steps are taken. By induction on the steps. -/
theorem componentAt_fieldType (h : IsElement base) (n m : Nat) :
    (fieldType (List.replicate (n + m) '[' ++ base)).componentAt m =
      .ok (fieldType (List.replicate n '[' ++ base)) := by
  induction m with
  | zero => rfl
  | succ m ih =>
    rw [← Nat.add_assoc, componentAt, component_fieldType h]
    exact ih

end Ty

/-! ## Arrays of classes and arrays -/

namespace Transfer

open Desc

/-- What `anewarray` makes is an array of the descriptor that the name gives. -/
theorem eq_of_anewarray {name : String} {v : Slot} (h : unary (.type .anewarray name) = .ok v) :
    v = some (.array (arrayOf name)) := by
  have htype : typeOf (arrayOf name).toList = .array (arrayOf name) := by
    -- Both ways to put the descriptor together start with a bracket, which is all that decides.
    have hcons : ∃ rest, (arrayOf name).toList = '[' :: rest := by
      unfold arrayOf
      split
      · exact ⟨name.toList, String.toList_append⟩
      · exact ⟨'L' :: (name.toList ++ [';']), by simp only [String.toList_append]; rfl⟩
    obtain ⟨rest, hrest⟩ := hcons
    rw [hrest]
    show Ty.array (String.ofList ('[' :: rest)) = _
    rw [← hrest, String.ofList_toList]
  have hmake : unary (.type .anewarray name) = ofDescriptor (arrayOf name) := rfl
  rw [hmake, ofDescriptor] at h
  split at h
  · exact nomatch h
  · exact nomatch h
  · exact nomatch h
  · rename_i t _ _ hparse
    obtain ⟨-, ht⟩ := parse_eq_ok_iff.mp hparse
    rw [ht, htype] at h
    cases h
    rfl

/-- **The component of an array that is made under a name** is the type of that name. -/
theorem component_of_arrayOf (name : String) :
    (Ty.array (arrayOf name)).component = .ok (Ty.ofClassName name) := by
  show Ty.ofField ((arrayOf name).toList.drop 1) = _
  unfold arrayOf Ty.ofClassName
  by_cases hbracket : name.toList.head? = some '['
  · rw [if_pos hbracket, if_pos hbracket]
    obtain ⟨rest, hname⟩ := List.head?_eq_some_iff.mp hbracket
    have hdrop : ("[" ++ name).toList.drop 1 = '[' :: rest := by
      rw [String.toList_append, hname]
      rfl
    rw [hdrop, Ty.ofField_eq_fieldType (List.cons_ne_nil _ _)]
    show Except.ok (Ty.array (String.ofList ('[' :: rest))) = _
    rw [← hname, String.ofList_toList]
  · rw [if_neg hbracket, if_neg hbracket]
    have hcons : ("L" ++ name ++ ";").toList = 'L' :: (name.toList ++ [';']) := by
      simp only [String.toList_append]
      rfl
    have hdrop : ("[L" ++ name ++ ";").toList.drop 1 = 'L' :: (name.toList ++ [';']) := by
      simp only [String.toList_append]
      rfl
    rw [hdrop, Ty.ofField_eq_fieldType (List.cons_ne_nil _ _)]
    show Except.ok (Ty.object (String.ofList ('L' :: (name.toList ++ [';'])))) = _
    rw [← hcons, String.ofList_toList]

/-- The value of the type of a name is the value of that name. -/
theorem result_ofClassName (name : String) : result (Ty.ofClassName name) = ofClassName name := by
  unfold Ty.ofClassName ofClassName Value.ofClassName Ty.ofClassName
  split
  · rfl
  · rfl

/-- A load from a reference array asks for the component. -/
theorem binary_of_aaload {insn : Insn} (hop : insn.opcode.code = 0x32) (lower : Slot) :
    binary insn lower = ofComponent lower := by
  have hopcode : insn.opcode = ⟨0x32⟩ := by
    rw [← hop]
  unfold binary
  rw [hopcode]
  rfl

/-- **What is loaded from an array that was made under a name** is what a cast to that name gives. -/
theorem binary_of_anewarray {name : String} {v : Slot} (h : unary (.type .anewarray name) = .ok v)
    {insn : Insn} (hop : insn.opcode.code = 0x32) : binary insn v = unary (.type .checkcast name) := by
  have hcast : unary (.type .checkcast name) = ofClassName name := rfl
  rw [eq_of_anewarray h, binary_of_aaload hop, ofComponent, component_of_arrayOf, hcast]
  exact result_ofClassName name

end Transfer

/-! ## Both -/

/-- **The projections of an array of `n + 1` dimensions.** -/
theorem Ty.projections_fieldType {base : List Char} (h : Desc.IsElement base) {n : Nat} (hn : n + 1 ≤ 255)
    {t : Ty} (ht : t = Desc.fieldType (List.replicate (n + 1) '[' ++ base)) :
    t.dimensions = n + 1 ∧
    (∃ c, t.component = .ok c ∧ Desc.parse (String.ofList (List.replicate n '[' ++ base)) = .ok c) ∧
    ∃ e, t.element = .ok e ∧ Desc.parse (String.ofList base) = .ok e ∧ e ≠ .void ∧ e.sort ≠ .array ∧
      t.componentAt (n + 1) = .ok e ∧
      ∀ m ≤ n + 1, ∃ u, t.componentAt m = .ok u ∧ u.dimensions + m = n + 1 := by
  -- After `m` steps there are `j` dimensions left.
  have hstep : ∀ j m, j + m = n + 1 →
      t.componentAt m = .ok (Desc.fieldType (List.replicate j '[' ++ base)) := by
    intro j m hjm
    rw [ht, ← hjm]
    exact Ty.componentAt_fieldType h j m
  have hdims : t.dimensions = n + 1 := ht ▸ dimensions_fieldType h hn
  have hcomponent := component_fieldType h n
  have helement := element_fieldType h n
  rw [← ht] at hcomponent helement
  have hlast : t.componentAt (n + 1) = .ok (Desc.fieldType base) := hstep 0 (n + 1) (Nat.zero_add _)
  refine ⟨hdims, ⟨_, hcomponent, h.parse_eq (Nat.le_of_succ_le hn)⟩, _, helement,
    h.parse_eq (n := 0) (Nat.zero_le 255), h.fieldType_ne_void, h.sort_fieldType, hlast, ?_⟩
  intro m hm
  obtain ⟨j, hj⟩ := Nat.exists_eq_add_of_le' hm
  have hle : j ≤ 255 := by omega
  have hdimsj := dimensions_fieldType h hle
  exact ⟨_, hstep j m hj.symm, hdimsj.symm ▸ hj.symm⟩

/-- **Array types project to what their descriptors say, and loads undo the making of arrays.** An accepted
descriptor of an array starts with one to 255 `[`. That many are its dimensions; its component is the type of
the text without the first `[`; its element is that of the text without all of them, which is neither `void` nor
an array, and it is reached by as many components, of which each has one dimension less. And if an array is
made under the name of a class or array, then whatever index is given, a load from it finds what a cast to
this name gives. -/
theorem array_projects :
    (∀ (text : String) (t : Ty), Desc.parse text = .ok t → t.sort = .array →
      ∃ k, k = Desc.countDimensions text.toList ∧ 1 ≤ k ∧ k ≤ 255 ∧ t.dimensions = k ∧
      (∃ c, t.component = .ok c ∧ Desc.parse (String.ofList (text.toList.drop 1)) = .ok c) ∧
      ∃ e, t.element = .ok e ∧ Desc.parse (String.ofList (text.toList.drop k)) = .ok e ∧
        e ≠ .void ∧ e.sort ≠ .array ∧ t.componentAt k = .ok e ∧
        ∀ m ≤ k, ∃ u, t.componentAt m = .ok u ∧ u.dimensions + m = k) ∧
    ∀ (name : String) (v : Slot), Transfer.unary (.type .anewarray name) = .ok v →
      ∃ w, Transfer.unary (.type .checkcast name) = .ok w ∧
        ∀ insn : Insn, insn.opcode.code = 0x32 → Transfer.binary insn v = .ok w ∧
          ∀ (f : Frame) (index : Slot) (rest : List Slot), f.stack = index :: v :: rest →
            (Exec.binary insn).run f = .ok w { f with stack := rest } := by
  constructor
  · intro text t hparse hsort
    obtain ⟨n, base, hn, hbase, htext, rfl⟩ := Desc.exists_element_of_parse hparse hsort
    have hfirst : text.toList.drop 1 = List.replicate n '[' ++ base := by
      rw [htext]
      rfl
    have hall : text.toList.drop (n + 1) = base := by
      rw [htext]
      exact List.drop_left' (List.length_replicate ..)
    have hcount : n + 1 = Desc.countDimensions text.toList := by rw [htext, (hbase.dimensions_append _).1]
    refine ⟨n + 1, hcount, Nat.succ_pos n, hn, ?_⟩
    rw [hfirst, hall]
    exact Ty.projections_fieldType hbase hn rfl
  · intro name v hmake
    refine ⟨some (Value.ofClassName name), rfl, fun insn hop => ?_⟩
    -- The index is popped and not looked at.
    have hload : Transfer.binary insn v = .ok (some (Value.ofClassName name)) :=
      Transfer.binary_of_anewarray hmake hop
    refine ⟨hload, fun f index rest hstack => ?_⟩
    obtain ⟨locals, stack, maxStack, result⟩ := f
    cases hstack
    show (Exec.ofExcept (Transfer.binary insn v)).run _ = _
    rw [hload]
    rfl

/-- An array of three dimensions, and an array of arrays that was made under the name of an array. -/
theorem array_projects_nested :
    (∃ t c e, Desc.parse "[[[La/b;" = .ok t ∧ t.dimensions = 3 ∧
      t.component = .ok c ∧ Desc.parse "[[La/b;" = .ok c ∧
      t.element = .ok e ∧ Desc.parse "La/b;" = .ok e ∧ t.componentAt 3 = .ok e) ∧
    Transfer.unary (.type .anewarray "[J") = .ok (some (.array "[[J")) ∧
      Transfer.binary (.plain ⟨0x32⟩) (some (.array "[[J")) = .ok (some (.array "[J")) := by
  obtain ⟨hprojects, hmade⟩ := array_projects
  constructor
  · have hparse : Desc.parse "[[[La/b;" = .ok (.array "[[[La/b;") := eq_ok_of_toOption (by decide +kernel)
    obtain ⟨k, hk, -, -, hdims, ⟨c, hc, hparsec⟩, e, he, hparsee, -, -, hat, -⟩ := hprojects _ _ hparse rfl
    obtain rfl : k = 3 := hk.trans (by decide +kernel)
    exact ⟨_, c, e, hparse, hdims, hc, hparsec, he, hparsee, hat⟩
  · have hmake : Transfer.unary (.type .anewarray "[J") = .ok (some (.array "[[J")) := rfl
    obtain ⟨w, hw, hload⟩ := hmade "[J" _ hmake
    cases hw
    exact ⟨hmake, (hload (.plain ⟨0x32⟩) rfl).1⟩

end StackMap
