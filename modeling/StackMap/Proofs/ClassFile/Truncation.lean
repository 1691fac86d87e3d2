import StackMap.Proofs.ClassFile.Header

/-!
# `Proofs.ClassFile.Truncation`: class files that end too early

Everything in front of the attributes of a class is read steadily, so that a file that is cut off is refused because it
ends. The names of the attributes of the class are the one place where this goes wrong: a number that is
not there counts as zero, and it is the look-up of this number that is reported.

## Contents

* `attributeStarts`: where the attributes of the class start.
* `parse_take`: what is reported about a file that is cut off.
* `OneAttribute`, `cut_not_reported`: a file that is cut off and not refused because it ends.
-/

namespace StackMap.ClassFile

open Reader

/-! ## The attributes of the class -/

/-- Passes over an attribute and gives the offset at which it starts. -/
def attributeStart : Reader Nat := do
  let start ← Reader.offset
  Reader.skip 2
  Reader.skip (← Reader.u4)
  return start

/-- **Where the attributes of the class start.** -/
def attributeStarts : Reader (List Nat) := do
  let h ← readHeader
  Reader.times attributeStart h.attributes

/-- What is reported about a name that is not there. -/
def namelessError : ClassError := ⟨[.attributeName], .indexOutOfRange 0⟩

/-- **What is reported about a file that ends at the offset `n`**: that a name is no constant if the file
ends in the name of an attribute, and that it ends otherwise. -/
def Reported (starts : List Nat) (n : Nat) (e : ClassError) : Prop :=
  if ∃ s ∈ starts, n = s ∨ n = s + 1 then e = namelessError else Ends n e

theorem reported_nameless {starts : List Nat} {n : Nat} (h : ∃ s ∈ starts, n = s ∨ n = s + 1) :
    Reported starts n namelessError := by
  unfold Reported
  rw [if_pos h]

theorem reported_ends {starts : List Nat} {n : Nat} {e : ClassError}
    (h : ¬ ∃ s ∈ starts, n = s ∨ n = s + 1) (he : Ends n e) : Reported starts n e := by
  unfold Reported
  rwa [if_neg h]

theorem reported_congr {starts starts' : List Nat} {n : Nat} {e : ClassError}
    (h : (∃ s ∈ starts, n = s ∨ n = s + 1) ↔ ∃ s ∈ starts', n = s ∨ n = s + 1) :
    Reported starts n e ↔ Reported starts' n e := by
  unfold Reported
  simp only [h]

theorem takes_readAttributeName {pool : Pool} {c c' : Cursor} {name : String}
    (h : readAttributeName pool c = .ok (name, c')) :
    ∃ a b, c.rest = a :: b :: c'.rest ∧ c'.offset = c.offset + 2 ∧
      (readAttributeName pool).Takes (fun _ e => e = namelessError) [a, b] c.offset name := by
  obtain ⟨rest, offset⟩ := c
  match rest, h with
  | a :: b :: rest, h =>
    -- The number is there, and the look-up of it succeeds.
    have hlookup : pool.utf8 (a.toNat * 256 + b.toNat) = .ok name ∧ c' = ⟨rest, offset + 2⟩ := by
      change ofExceptIn .attributeName (pool.utf8 (a.toNat * 256 + b.toNat)) ⟨rest, offset + 2⟩ = _ at h
      cases hname : pool.utf8 (a.toNat * 256 + b.toNat) with
      | error cause =>
        rw [hname] at h
        exact nomatch h
      | ok name' =>
        rw [hname] at h
        cases h
        exact ⟨rfl, rfl⟩
    obtain ⟨hname, rfl⟩ := hlookup
    refine ⟨a, b, rfl, rfl, fun rest => ?_, fun n hn => ?_⟩
    · show ofExceptIn .attributeName (pool.utf8 (a.toNat * 256 + b.toNat)) ⟨rest, offset + 2⟩ = _
      rw [hname]
      rfl
    · match n, hn with
      | 0, _ => exact ⟨_, rfl, rfl⟩
      | 1, _ => exact ⟨_, rfl, rfl⟩

/-- **An attribute of the class**: only a cut in its name is misreported. -/
theorem takes_readClassAttribute {pool pool' : Pool} {c c' : Cursor}
    (h : readClassAttribute pool c = .ok (pool', c')) :
    ∃ used, c.rest = used ++ c'.rest ∧ 2 ≤ used.length ∧
      attributeStart.Takes Ends used c.offset c.offset ∧
      (readClassAttribute pool).Takes (Reported [c.offset]) used c.offset pool' := by
  unfold readClassAttribute at h
  obtain ⟨name, c₁, hname, h⟩ := bind_ok_iff.mp h
  obtain ⟨length, c₂, hlength, h⟩ := bind_ok_iff.mp h
  obtain ⟨data, c₃, hdata, h⟩ := bind_ok_iff.mp h
  obtain ⟨hpool, rfl⟩ := liftM_ok_iff.mp h
  obtain ⟨a, b, hrest, hoffset, htname⟩ := takes_readAttributeName hname
  obtain ⟨digits, hrest₁, htlength⟩ := steady_u4.takes c₁ length c₂ hlength
  obtain ⟨hsize, hrest₂, -⟩ := bytes_ok_iff.mp hdata
  rw [hoffset] at htlength
  -- The bytes are those of the name, of the length and of the data.
  refine ⟨[a, b] ++ (digits ++ (data ++ [])), ?_, by simp, ?_, ?_⟩
  · rw [hrest, hrest₁, hrest₂]
    simp
  · have hstart : Reader.offset.Takes Ends [] c.offset c.offset := ⟨fun _ => rfl, fun _ hn => nomatch hn⟩
    have hskip : (skip 2).Takes Ends [a, b] c.offset () := takes_skip (by rfl) _
    exact hstart.bind (hskip.bind (htlength.bind ((takes_skip hsize _).bind .pure)))
  · have hname' : (readAttributeName pool).Takes (Reported [c.offset]) [a, b] c.offset name := by
      refine htname.mono fun n hn e he => ?_
      rw [he]
      refine reported_nameless ⟨c.offset, by simp, ?_⟩
      simp only [List.length_cons, List.length_nil] at hn
      omega
    have hbehind : ∀ n e, Ends n e → c.offset + 2 ≤ n → Reported [c.offset] n e := by
      intro n e he hn
      refine reported_ends ?_ he
      rintro ⟨s, hs, hns⟩
      rw [List.mem_singleton] at hs
      omega
    refine hname'.bind (.bind (htlength.mono fun n _ e he => hbehind _ e he ?_)
      (.bind ((takes_bytes hsize _).mono fun n _ e he => hbehind _ e he ?_) (.liftM hpool)))
    · omega
    · simp only [List.length_cons, List.length_nil]
      omega

/-- **The attributes of the class**: only a cut in one of their names is misreported. -/
theorem takes_readClassAttributes {pool pool' : Pool} {count : Nat} {c c' : Cursor}
    (h : readClassAttributes pool count c = .ok (pool', c')) :
    ∃ used starts, c.rest = used ++ c'.rest ∧ (∀ s ∈ starts, c.offset ≤ s) ∧
      (attributeStart.times count).Takes Ends used c.offset starts ∧
      (readClassAttributes pool count).Takes (Reported starts) used c.offset pool' := by
  induction count generalizing pool c with
  | zero =>
    cases h
    exact ⟨[], [], rfl, fun _ hs => (nomatch hs), .pure, .pure⟩
  | succ count ih =>
    obtain ⟨mid, c₁, hfirst, h⟩ := bind_ok_iff.mp h
    obtain ⟨used, hrest, htwo, hstart, htfirst⟩ := takes_readClassAttribute hfirst
    obtain ⟨used', starts, hrest', hle, hstarts, htothers⟩ := ih h
    rw [htfirst.offset_eq hfirst hrest] at hle hstarts htothers
    refine ⟨used ++ used', c.offset :: starts, ?_, ?_, ?_, ?_⟩
    · rw [hrest, hrest', List.append_assoc]
    · rw [List.forall_mem_cons]
      exact ⟨Nat.le_refl _, fun s hs => Nat.le_trans (Nat.le_add_right _ _) (hle s hs)⟩
    · have hall : (attributeStart.times (count + 1)).Takes Ends (used ++ (used' ++ [])) c.offset
          (c.offset :: starts) := hstart.bind (hstarts.bind .pure)
      rwa [List.append_nil] at hall
    · -- A cut in the first attribute is in front of the others, and one in the others behind its name.
      refine Takes.bind (htfirst.mono fun n hn e he => ?_) (htothers.mono fun n hn e he => ?_)
      · refine (reported_congr ?_).mp he
        rw [List.exists_mem_cons_iff, List.exists_mem_cons_iff]
        refine or_congr_right ⟨fun hs => ?_, fun ⟨s, hs, hns⟩ => ?_⟩
        · exact absurd hs (by simp)
        · have := hle s hs
          omega
      · refine (reported_congr ?_).mp he
        rw [List.exists_mem_cons_iff]
        refine ⟨Or.inr, fun hs => hs.resolve_left ?_⟩
        omega

/-- **A class**: only a cut in the name of one of its attributes is misreported. -/
theorem takes_readClass {c c' : Cursor} {a : Class} (h : readClass c = .ok (a, c')) :
    ∃ used starts, c.rest = used ++ c'.rest ∧ attributeStarts.Takes Ends used c.offset starts ∧
      readClass.Takes (Reported starts) used c.offset a := by
  obtain ⟨header, c₁, hheader, hbehind⟩ := bind_ok_iff.mp h
  obtain ⟨pool, c₂, hpool, hbehind⟩ := bind_ok_iff.mp hbehind
  obtain ⟨methods, c₃, hlift, hclass⟩ := bind_ok_iff.mp hbehind
  obtain ⟨hmethods, rfl⟩ := liftM_ok_iff.mp hlift
  cases hclass
  obtain ⟨used, hrest, htheader⟩ := steady_readHeader.takes _ _ _ hheader
  obtain ⟨used', starts, hrest', hle, hstarts, htpool⟩ := takes_readClassAttributes hpool
  rw [htheader.offset_eq hheader hrest] at hle hstarts htpool
  refine ⟨used ++ (used' ++ []), starts, ?_, ?_, ?_⟩
  · rw [hrest, hrest', List.append_nil, List.append_assoc]
  · rw [List.append_nil]
    exact htheader.bind hstarts
  · -- All starts are behind the header.
    have htheader' : readHeader.Takes (Reported starts) used c.offset header := by
      refine htheader.mono fun n hn e he => reported_ends ?_ he
      rintro ⟨s, hs, hns⟩
      have := hle s hs
      omega
    exact htheader'.bind (htpool.bind ((Takes.liftM hmethods).bind .pure))

/-- **What is reported about a class file that is cut off**: if the cut is at the start of an attribute of
the class or one byte behind it, that its name is no constant, and that the file ends otherwise. -/
theorem parse_take {data : List UInt8} {c : Class} {offset : Nat}
    (h : readClass ⟨data, 0⟩ = .ok (c, ⟨[], offset⟩)) {n : Nat} (hn : n < data.length) :
    ∃ starts e, attributeStarts.runOn data = .ok starts ∧ parse (data.take n) = .error e ∧
      if ∃ s ∈ starts, n = s ∨ n = s + 1 then e = ⟨[.attributeName], .indexOutOfRange 0⟩
      else e.cause.kind? = some .truncated := by
  obtain ⟨used, starts, hrest, hstarts, hclass⟩ := takes_readClass h
  have hdata : used = data := by
    rw [List.append_nil] at hrest
    exact hrest.symm
  subst hdata
  obtain ⟨e, he, hreported⟩ := hclass.cut n hn
  rw [Nat.zero_add] at hreported
  have hwhole := hstarts.whole []
  rw [List.append_nil] at hwhole
  refine ⟨starts, e, ?_, ?_, hreported⟩
  · unfold runOn
    rw [hwhole]
  · unfold parse runOn
    rw [he]

/-! ## A class with an attribute -/

namespace OneAttribute

/-- A class without members and with one attribute, which starts at the offset 31. -/
def data : List UInt8 :=
  [0xCA, 0xFE, 0xBA, 0xBE, 0, 0, 0, 0x34, 0, 3, 1, 0, 1, 0x41, 7, 0, 1,
    0, 0, 0, 2, 0, 0, 0, 0, 0, 0, 0, 0, 0, 1, 0, 1, 0, 0, 0, 0]

def aClass : Class := ⟨0x34, 0, 0, "A", "", [], [], []⟩

set_option maxRecDepth 4000 in
theorem readClass_eq : readClass ⟨data, 0⟩ = .ok (aClass, ⟨[], 37⟩) := by with_unfolding_all rfl

theorem parse_take_eq : parse (data.take 31) = .error namelessError :=
  eq_error_of_errorOf? (by decide +kernel)

end OneAttribute

theorem parse_take_oneAttribute :
    readClass ⟨OneAttribute.data, 0⟩ = .ok (OneAttribute.aClass, ⟨[], 37⟩) ∧
      31 < OneAttribute.data.length ∧
      ∃ starts e, attributeStarts.runOn OneAttribute.data = .ok starts ∧
        parse (OneAttribute.data.take 31) = .error e ∧
        if ∃ s ∈ starts, 31 = s ∨ 31 = s + 1 then e = ⟨[.attributeName], .indexOutOfRange 0⟩
        else e.cause.kind? = some .truncated :=
  ⟨OneAttribute.readClass_eq, by decide, parse_take OneAttribute.readClass_eq (by decide)⟩

/-- **A file that is cut off can be refused for another reason than its end.** -/
theorem cut_not_reported :
    ¬ ∀ (data : List UInt8) (c : Class) (offset n : Nat),
      readClass ⟨data, 0⟩ = .ok (c, ⟨[], offset⟩) → n < data.length →
      ∃ e, parse (data.take n) = .error e ∧ e.cause.kind? = some .truncated := by
  intro h
  obtain ⟨e, he, hkind⟩ := h _ _ _ 31 OneAttribute.readClass_eq (by decide)
  rw [OneAttribute.parse_take_eq] at he
  cases he
  exact nomatch hkind

end StackMap.ClassFile
