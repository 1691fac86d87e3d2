import Mathlib.Data.List.Basic
import Mathlib.Data.List.Nodup
import StackMap.Listing.Basic
import StackMap.Proofs.Outcome

/-!
# `Proofs.Listing.Grouping`: listings grouped into classes

The listings of a file are gone through once. The method of each goes to the end of the class that has the name of
its owner, and a class is made where none has it. `Class.Groups` says what the classes have to do with the listings
that were gone through so far. A listing more keeps it, and so the classes of a whole file are as it says: no
listing is lost, none counts twice, and neither the classes nor their methods are out of order.

## Contents

* `Class.Groups`: the classes of some listings.
* `Groups.addMethod`: one listing more.
* `groups_of_ofListingsFrom`, `ofListingsFrom_eq_error`: many listings more, and one that is refused.
* `ofListings_groups`: the classes of a file.
-/

namespace StackMap.Class

variable {listings done : List MethodListing} {classes : List Class} {l : MethodListing} {owner : String}
  {m : Method}

/-- The names of classes. -/
def names (classes : List Class) : List String := classes.map (·.name)

/-- The owners of listings. -/
def owners (listings : List MethodListing) : List String := listings.map (·.owner)

/-- A class that has nothing but a name and methods. -/
def ofMethods (name : String) (methods : List Method) : Class := { named name with methods }

/-- **The classes of listings.** -/
structure Groups (listings : List MethodListing) (classes : List Class) : Prop where
  /-- No two classes have the same name. -/
  nodup : (names classes).Nodup
  /-- There is a class for each owner, and no other. -/
  mem_names : ∀ owner, owner ∈ names classes ↔ owner ∈ owners listings
  /-- They stand in the order of the first listings that name their owners. -/
  sorted : (names classes).Pairwise fun a b => (owners listings).idxOf a < (owners listings).idxOf b
  /-- The methods of a class are those of the listings of its owner, each once and in order. -/
  methods : ∀ c ∈ classes,
    (listings.filter (·.owner == c.name)).map (·.method) = c.methods.map Except.ok
  /-- Methods are all that a class has but its name. -/
  plain : ∀ c ∈ classes, c = ofMethods c.name c.methods

/-! ## One listing more -/

theorem names_append (classes classes' : List Class) :
    names (classes ++ classes') = names classes ++ names classes' :=
  List.map_append

theorem owners_append (done listings : List MethodListing) :
    owners (done ++ listings) = owners done ++ owners listings :=
  List.map_append

/-- An owner that was named before is first named where it was. -/
theorem idxOf_owners_append (h : owner ∈ owners done) :
    (owners (done ++ listings)).idxOf owner = (owners done).idxOf owner := by
  rw [owners_append]
  exact List.idxOf_append_of_mem h

theorem methods_append_of_eq (h : l.owner = owner) :
    ((done ++ [l]).filter (·.owner == owner)).map (·.method) =
      (done.filter (·.owner == owner)).map (·.method) ++ [l.method] := by
  simp [h]

theorem methods_append_of_ne (h : l.owner ≠ owner) :
    ((done ++ [l]).filter (·.owner == owner)).map (·.method) =
      (done.filter (·.owner == owner)).map (·.method) := by
  simp [h]

/-- The class with a method more, if it has the given name. -/
def withMethod (owner : String) (m : Method) (c : Class) : Class :=
  if c.name == owner then { c with methods := c.methods ++ [m] } else c

theorem name_withMethod (c : Class) : (withMethod owner m c).name = c.name := by
  unfold withMethod
  split
  · rfl
  · rfl

theorem any_name_iff : classes.any (·.name == owner) = true ↔ owner ∈ names classes := by
  unfold names
  rw [List.any_eq_true, List.mem_map]
  simp only [beq_iff_eq]

theorem addMethod_of_mem (h : owner ∈ names classes) :
    addMethod classes owner m = classes.map (withMethod owner m) := by
  unfold addMethod
  rw [if_pos (any_name_iff.mpr h)]
  rfl

theorem addMethod_of_not_mem (h : owner ∉ names classes) :
    addMethod classes owner m = classes ++ [ofMethods owner [m]] := by
  unfold addMethod
  rw [if_neg (mt any_name_iff.mp h)]
  rfl

theorem names_map_withMethod : names (classes.map (withMethod owner m)) = names classes := by
  unfold names
  rw [List.map_map]
  exact List.map_congr_left fun c _ => name_withMethod c

/-- The order of the classes stays what it is, whatever is listed behind. -/
theorem Groups.sorted_append (h : Groups done classes) : (names classes).Pairwise fun a b =>
    (owners (done ++ listings)).idxOf a < (owners (done ++ listings)).idxOf b := by
  apply h.sorted.imp_of_mem
  intro a b ha hb hab
  rwa [idxOf_owners_append ((h.mem_names a).mp ha), idxOf_owners_append ((h.mem_names b).mp hb)]

/-- **A listing of an owner that has a class** adds to its methods. -/
theorem Groups.map_withMethod (h : Groups done classes) (hm : l.method = .ok m)
    (howner : l.owner ∈ names classes) : Groups (done ++ [l]) (classes.map (withMethod l.owner m)) := by
  refine ⟨?_, fun owner => ?_, ?_, fun c hc => ?_, fun c hc => ?_⟩
  · rw [names_map_withMethod]
    exact h.nodup
  · rw [names_map_withMethod, h.mem_names, owners_append, List.mem_append]
    constructor
    · exact Or.inl
    · rintro (hdone | hlast)
      · exact hdone
      · rw [List.mem_singleton.mp hlast]
        exact (h.mem_names _).mp howner
  · rw [names_map_withMethod]
    exact h.sorted_append
  · obtain ⟨c, hmem, rfl⟩ := List.mem_map.mp hc
    rw [name_withMethod]
    unfold withMethod
    by_cases hname : c.name = l.owner
    · rw [if_pos (beq_iff_eq.mpr hname), methods_append_of_eq hname.symm, h.methods c hmem, hm,
        List.map_append]
      rfl
    · rw [if_neg (by simpa using hname), methods_append_of_ne (Ne.symm hname), h.methods c hmem]
  · obtain ⟨c, hmem, rfl⟩ := List.mem_map.mp hc
    have hplain : c = ofMethods c.name c.methods := h.plain c hmem
    unfold withMethod
    split
    · exact congrArg (fun c : Class => { c with methods := c.methods ++ [m] }) hplain
    · exact hplain

/-- **A listing of a new owner** makes a class. -/
theorem Groups.append_named (h : Groups done classes) (hm : l.method = .ok m)
    (howner : l.owner ∉ names classes) :
    Groups (done ++ [l]) (classes ++ [ofMethods l.owner [m]]) := by
  have hnew : l.owner ∉ owners done := mt (h.mem_names _).mpr howner
  have hnames : names (classes ++ [ofMethods l.owner [m]]) = names classes ++ [l.owner] :=
    names_append classes _
  refine ⟨?_, fun owner => ?_, ?_, fun c hc => ?_, fun c hc => ?_⟩
  · rw [hnames]
    exact h.nodup.append (List.nodup_singleton _) (by simpa using howner)
  · rw [hnames, List.mem_append, h.mem_names, owners_append, List.mem_append]
    rfl
  · rw [hnames, List.pairwise_append]
    refine ⟨h.sorted_append, List.pairwise_singleton _ _, fun a ha b hb => ?_⟩
    have hknown : a ∈ owners done := (h.mem_names a).mp ha
    rw [List.mem_singleton.mp hb, idxOf_owners_append hknown, owners_append,
      List.idxOf_append_of_notMem hnew]
    exact Nat.lt_add_right _ (List.idxOf_lt_length_iff.mpr hknown)
  · rcases List.mem_append.mp hc with hmem | hlast
    · have hname : l.owner ≠ c.name := by
        rintro heq
        exact howner (heq ▸ List.mem_map_of_mem hmem)
      rw [methods_append_of_ne hname, h.methods c hmem]
    · obtain rfl := List.mem_singleton.mp hlast
      have hnone : done.filter (·.owner == l.owner) = [] := by
        rw [List.filter_eq_nil_iff]
        intro l' hl' heq
        exact hnew (eq_of_beq heq ▸ List.mem_map_of_mem hl')
      show ((done ++ [l]).filter (·.owner == l.owner)).map (·.method) = [Except.ok m]
      rw [methods_append_of_eq rfl, hnone, hm]
      rfl
  · rcases List.mem_append.mp hc with hmem | hlast
    · exact h.plain c hmem
    · obtain rfl := List.mem_singleton.mp hlast
      rfl

/-- **One listing more.** -/
theorem Groups.addMethod (h : Groups done classes) (hm : l.method = .ok m) :
    Groups (done ++ [l]) (addMethod classes l.owner m) := by
  by_cases howner : l.owner ∈ names classes
  · rw [addMethod_of_mem howner]
    exact h.map_withMethod hm howner
  · rw [addMethod_of_not_mem howner]
    exact h.append_named hm howner

/-! ## A whole file -/

theorem groups_nil : Groups [] [] :=
  ⟨.nil, fun _ => Iff.rfl, .nil, fun _ hc => absurd hc List.not_mem_nil, fun _ hc => absurd hc List.not_mem_nil⟩

/-- **Listings that assemble are grouped.** By induction on them, with those that were gone through before. -/
theorem groups_of_ofListingsFrom (h : Groups done classes) (hall : ∀ l ∈ listings, ∃ m, l.method = .ok m) :
    ∃ classes', ofListingsFrom classes listings = .ok classes' ∧ Groups (done ++ listings) classes' := by
  induction listings generalizing done classes with
  | nil =>
    refine ⟨classes, rfl, ?_⟩
    rwa [List.append_nil]
  | cons l listings ih =>
    rw [List.forall_mem_cons] at hall
    obtain ⟨⟨m, hm⟩, hrest⟩ := hall
    obtain ⟨classes', hclasses', hgroups⟩ := ih (h.addMethod hm) hrest
    refine ⟨classes', ?_, ?_⟩
    · rw [ofListingsFrom, hm]
      exact hclasses'
    · rwa [List.append_assoc] at hgroups

/-- **The first listing that does not assemble** is the one that is reported, whatever was grouped before. -/
theorem ofListingsFrom_eq_error {before after : List MethodListing} {e : ListingError}
    (hbefore : ∀ l ∈ before, ∃ m, l.method = .ok m) (hl : l.method = .error e) :
    ofListingsFrom classes (before ++ l :: after) = .error ⟨l, e⟩ := by
  induction before generalizing classes with
  | nil => rw [List.nil_append, ofListingsFrom, hl]
  | cons l' before ih =>
    rw [List.forall_mem_cons] at hbefore
    obtain ⟨⟨m, hm⟩, hrest⟩ := hbefore
    rw [List.cons_append, ofListingsFrom, hm]
    exact ih hrest

/-- Where some listing does not assemble, there is a first one. -/
theorem exists_first_error (h : ¬ ∀ l ∈ listings, ∃ m, l.method = .ok m) :
    ∃ before l after e, listings = before ++ l :: after ∧
      (∀ l' ∈ before, ∃ m, l'.method = .ok m) ∧ l.method = .error e := by
  induction listings with
  | nil => exact absurd (fun l hl => absurd hl List.not_mem_nil) h
  | cons l listings ih =>
    cases hl : l.method with
    | error e => exact ⟨[], l, listings, e, rfl, fun _ h => absurd h List.not_mem_nil, hl⟩
    | ok m =>
      have hrest : ¬ ∀ l' ∈ listings, ∃ m, l'.method = .ok m := by
        intro hrest
        exact h (List.forall_mem_cons.mpr ⟨⟨m, hl⟩, hrest⟩)
      obtain ⟨before, l', after, e, rfl, hbefore, he⟩ := ih hrest
      exact ⟨l :: before, l', after, e, rfl, List.forall_mem_cons.mpr ⟨⟨m, hl⟩, hbefore⟩, he⟩

/-- **Grouping loses nothing.** If all listings of a file assemble, there are classes, and they are those of the
listings. If one does not, there are none, and the first such listing is reported with its error. -/
theorem ofListings_groups (listings : List MethodListing) :
    ((∀ l ∈ listings, ∃ m, l.method = .ok m) →
      ∃ classes, ofListings listings = .ok classes ∧ Groups listings classes) ∧
    ((∃ l ∈ listings, ∃ e, l.method = .error e) →
      ∃ before l after e, listings = before ++ l :: after ∧ (∀ l' ∈ before, ∃ m, l'.method = .ok m) ∧
        l.method = .error e ∧ ofListings listings = .error ⟨l, e⟩) := by
  constructor
  · exact groups_of_ofListingsFrom groups_nil
  · rintro ⟨l, hl, e, he⟩
    have hsome : ¬ ∀ l ∈ listings, ∃ m, l.method = .ok m := by
      intro hall
      obtain ⟨m, hm⟩ := hall l hl
      exact nomatch he.symm.trans hm
    obtain ⟨before, first, after, e', rfl, hbefore, hfirst⟩ := exists_first_error hsome
    exact ⟨before, first, after, e', rfl, hbefore, hfirst, ofListingsFrom_eq_error hbefore hfirst⟩

/-! ## Two files -/

/-- A listing without particulars. -/
def brief (owner name code : String) : MethodListing where
  owner := owner
  name := name
  desc := "()V"
  access := ["static"]
  maxStack := none
  maxLocals := none
  code := code
  tryCatch := []

/-- Listings of two owners in turn; two of them have the same heading. -/
def interleaved : List MethodListing :=
  [brief "p/B" "f" "nop", brief "p/A" "g" "nop", brief "p/B" "f" "nop\nnop"]

/-- Two of these do not assemble. -/
def broken : List MethodListing :=
  [brief "p/B" "f" "nop", brief "p/A" "g" "x:\nx:", brief "p/B" "h" "nop 1"]

theorem ofListings_groups_interleaved :
    (∃ classes, ofListings interleaved = .ok classes ∧ Groups interleaved classes ∧
      classes.map (fun c => (c.name, c.methods.map (·.insns.size))) =
        [("p/B", [1, 2]), ("p/A", [1])]) ∧
    ∃ before l after e, broken = before ++ l :: after ∧ (∀ l' ∈ before, ∃ m, l'.method = .ok m) ∧
      l.method = .error e ∧ ofListings broken = .error ⟨l, e⟩ ∧
      (FileError.mk l e).message = "p/A.g()V: line 2: duplicate label: x" := by
  have hall : ∀ l ∈ interleaved, ∃ m, l.method = .ok m := by
    intro l hl
    have hok : ∀ l ∈ interleaved, l.method.toOption.isSome := by decide +kernel
    obtain ⟨m, hm⟩ := Option.isSome_iff_exists.mp (hok l hl)
    exact ⟨m, eq_ok_of_toOption hm⟩
  obtain ⟨classes, hclasses, hgroups⟩ := (ofListings_groups interleaved).1 hall
  have hshape : (ofListings interleaved).toOption.map
      (fun classes => classes.map fun c => (c.name, c.methods.map (·.insns.size))) =
        some [("p/B", [1, 2]), ("p/A", [1])] := by decide +kernel
  rw [hclasses] at hshape
  have hmessage : (errorOf? (ofListings broken)).map FileError.message =
      some "p/A.g()V: line 2: duplicate label: x" := by decide +kernel
  have hsome : ∃ l ∈ broken, ∃ e, l.method = .error e := by
    have hfails : (errorOf? (brief "p/A" "g" "x:\nx:").method).isSome := by decide +kernel
    obtain ⟨e, he⟩ := Option.isSome_iff_exists.mp hfails
    exact ⟨_, List.mem_cons_of_mem _ List.mem_cons_self, e, eq_error_of_errorOf? he⟩
  obtain ⟨before, l, after, e, hsplit, hbefore, he, herror⟩ := (ofListings_groups broken).2 hsome
  rw [herror] at hmessage
  exact ⟨⟨classes, hclasses, hgroups, Option.some.inj hshape⟩,
    before, l, after, e, hsplit, hbefore, he, herror, Option.some.inj hmessage⟩

end StackMap.Class
