import StackMap.Assembly.Assemble
import StackMap.Proofs.Desc.Parts
import StackMap.Proofs.Numeral.Integer
import StackMap.Proofs.Text.Quoted
import StackMap.Proofs.Text.Words

/-!
# `Proofs.Assembly.Constants`: constants read back

The text of a constant is also what assembly writes for it. A line with `ldc` and that text is cut several times
before the constant is read: the comment is dropped, blanks are taken off, the mnemonic is split from the operand,
and the operand falls into words. None of this harms the text. A string is in quotes, where `#` starts no
comment, and ends in one. Other constants are words with one space between them.

## Contents

* `Bare`, `Constant.Writable`: names and constants that a listing can write.
* `stripFrom_bare`, `stripFrom_quotePiece`: texts without comments.
* `assemble_ldc`: the line of an operand that survives the cuts.
* `wordConstant_class`, …, `number_int`, `number_long`: constants by their words.
* `constants_reassemble`: constants read back.
-/

namespace StackMap

open Text

/-! ## Constants that can be written -/

/-- **Words without `#` and quotes.** -/
structure Assembly.Bare (w : List Char) : Prop where
  word : IsWord w
  mark : ∀ c ∈ w, c ≠ '#' ∧ c ≠ '"'

open Assembly (Bare)

theorem Assembly.bare_iff {w : List Char} :
    Bare w ↔ w ≠ [] ∧ ∀ c ∈ w, ¬ isBlank c ∧ c ≠ '#' ∧ c ≠ '"' := by
  constructor
  · exact fun h => ⟨h.word.ne_nil, fun c hc => ⟨h.word.dense c hc, h.mark c hc⟩⟩
  · rintro ⟨hne, hchars⟩
    exact ⟨⟨hne, fun c hc => (hchars c hc).1⟩, fun c hc => (hchars c hc).2⟩

/-- Whether a word is bare is seen at its characters. -/
instance (w : List Char) : Decidable (Bare w) :=
  decidable_of_iff (w ≠ [] ∧ w.all fun c => ¬ isBlank c ∧ c ≠ '#' ∧ c ≠ '"')
    ((and_congr_right fun _ => List.all_iff_forall_prop).trans Assembly.bare_iff.symm)

/-- **Constants that a listing can write**: whole numbers, strings, types with a descriptor that is accepted,
handles of the nine kinds to members of classes, and dynamic constants without a bootstrap method. Names and
descriptors are words, and contain neither `#` nor quotes. -/
inductive Constant.Writable : Constant → Prop where
  | int (v : Int32) : Writable (.int v)
  | long (v : Int64) : Writable (.long v)
  | string (bytes : List UInt8) : Writable (.string bytes)
  | type {text : String} {t : Ty} (h : Desc.parse text = .ok t) (hbare : Bare text.toList) : Writable (.type t)
  | handle {kind : Int} {owner name desc : String} (hkind : 1 ≤ kind ∧ kind ≤ 9) (howner : Bare owner.toList)
      (hname : Bare name.toList) (hdesc : Bare desc.toList) : Writable (.handle ⟨kind, owner, name, desc, false⟩)
  | dynamic {name desc : String} (hname : Bare name.toList) (hdesc : Bare desc.toList) :
      Writable (.dynamic name desc none [])

namespace Assembly

/-! ## Comments -/

/-- **Outside quotes only `#` and quotes matter.** -/
theorem stripFrom_bare {s : List Char} (h : ∀ c ∈ s, c ≠ '#' ∧ c ≠ '"') : stripFrom .plain s = s := by
  induction s with
  | nil => rfl
  | cons c s ih =>
    obtain ⟨⟨hhash, hquote⟩, hrest⟩ := List.forall_mem_cons.mp h
    rw [stripFrom, if_neg hhash, if_neg hquote, ih hrest]

/-- Inside quotes only backslashes and quotes matter. -/
theorem stripFrom_inert {digits : List Char} (h : ∀ d ∈ digits, d ≠ '\\' ∧ d ≠ '"' ∧ d ≠ '\n')
    (s : List Char) : stripFrom .quoted (digits ++ s) = digits ++ stripFrom .quoted s := by
  induction digits with
  | nil => rfl
  | cons d digits ih =>
    obtain ⟨⟨hback, hquote, -⟩, hrest⟩ := List.forall_mem_cons.mp h
    rw [List.cons_append, stripFrom, if_neg hback, if_neg hquote, ih hrest]
    rfl

/-- **What stands for a piece in quotes stays**, and the scan is inside the quotes behind it. -/
theorem stripFrom_quotePiece (p : Piece) (s : List Char) :
    stripFrom .quoted (quotePiece p ++ s) = quotePiece p ++ stripFrom .quoted s := by
  rcases quotePiece_cases p with ⟨c, hp, hback, hquote, hline⟩ | ⟨c, digits, hp, -, hdigits⟩
  · rw [hp]
    apply stripFrom_inert
    intro d hd
    rw [List.mem_singleton.mp hd]
    exact ⟨hback, hquote, hline⟩
  · rw [hp]
    show '\\' :: c :: stripFrom .quoted (digits ++ s) = _
    rw [stripFrom_inert hdigits]
    rfl

/-- **A string in quotes contains no comment.** By induction on its pieces. -/
theorem stripFrom_quoteBytes (bytes : List UInt8) :
    stripFrom .plain (quoteBytes bytes).toList = (quoteBytes bytes).toList := by
  have hbody : ∀ ps : List Piece,
      stripFrom .quoted (ps.flatMap quotePiece ++ ['"']) = ps.flatMap quotePiece ++ ['"'] := by
    intro ps
    induction ps with
    | nil => rfl
    | cons p ps ih => rw [List.flatMap_cons, List.append_assoc, stripFrom_quotePiece, ih]
  rw [quoteBytes, String.toList_ofList]
  exact congrArg ('"' :: ·) (hbody (pieces bytes))

theorem newline_not_mem_quoteBytes (bytes : List UInt8) : '\n' ∉ (quoteBytes bytes).toList := by
  intro h
  rw [quoteBytes, String.toList_ofList] at h
  rcases List.mem_append.mp h with h | h
  · rcases List.mem_cons.mp h with h | h
    · exact absurd h (by decide)
    obtain ⟨p, -, hp⟩ := List.mem_flatMap.mp h
    rcases quotePiece_cases p with ⟨c, hcons, -, -, hline⟩ | ⟨c, digits, hcons, hline, hdigits⟩
    · rw [hcons] at hp
      exact hline (List.mem_singleton.mp hp).symm
    · rw [hcons] at hp
      rcases List.mem_cons.mp hp with hp | hp
      · exact absurd hp (by decide)
      rcases List.mem_cons.mp hp with hp | hp
      · exact hline hp.symm
      · exact (hdigits _ hp).2.2 rfl
  · exact absurd h (by decide)

theorem trimmed_quoteBytes (bytes : List UInt8) : Trimmed (quoteBytes bytes).toList := by
  rw [quoteBytes, String.toList_ofList]
  exact ⟨⟨'"', _, rfl, by decide⟩, '"', _, rfl, by decide⟩

/-! ## Lines -/

/-- **The line of `ldc` and an operand.** -/
def ldcLine (operand : List Char) : List Char := 'l' :: 'd' :: 'c' :: ' ' :: operand

theorem splitMnemonic_ldcLine {operand : List Char} (h : Trimmed operand) :
    splitMnemonic (ldcLine operand) = (['l', 'd', 'c'], operand) := by
  have hoperand : trim (' ' :: operand) = operand := by
    rw [trim_cons_of_blank (by decide), h.trim_eq]
  show (['l', 'd', 'c'], trim (' ' :: operand)) = _
  rw [hoperand]

/-- **The instruction of the line** is that of the constant. -/
theorem instruction_ldcLine {operand : List Char} {c : Constant} (h : Trimmed operand)
    (hc : constant operand = .ok c) : instruction (ldcLine operand) = .ok (.ldc (some c)) := by
  have hmnemonic : Opcode.ofMnemonic? (str (lower ['l', 'd', 'c'])) = some .ldc := by decide +kernel
  have hgeneral : general .ldc operand (words operand) = .ok (.ldc (some c)) := by
    show (do return Insn.ldc (some (← constant operand))) = _
    rw [hc]
    rfl
  have hnormalize : Opcode.normalize .ldc = (.ldc, none) := by decide
  unfold instruction
  rw [splitMnemonic_ldcLine h]
  dsimp only
  rw [hmnemonic]
  dsimp only
  rw [if_neg (by decide), hnormalize]
  dsimp only
  rw [hgeneral]
  rfl

/-- The line has a line feed only if the operand has one. -/
theorem lines_ldcLine {operand : List Char} (h : '\n' ∉ operand) : lines (ldcLine operand) = [ldcLine operand] := by
  apply lines_eq
  intro hmem
  rcases List.mem_append (s := ['l', 'd', 'c', ' ']).mp hmem with hmem | hmem
  · exact absurd hmem (by decide)
  · exact h hmem

theorem trim_ldcLine {operand : List Char} (h : Trimmed operand) : trim (ldcLine operand) = ldcLine operand := by
  have hldc : Trimmed ['l', 'd', 'c'] :=
    ⟨⟨'l', ['d', 'c'], rfl, by decide⟩, 'c', ['l', 'd'], rfl, by decide⟩
  exact (hldc.append [' '] h).trim_eq

/-- There is a comment in the line only if there is one in the operand. -/
theorem stripComment_ldcLine {operand : List Char} (h : stripFrom .plain operand = operand) :
    stripComment (ldcLine operand) = ldcLine operand := by
  show 'l' :: 'd' :: 'c' :: ' ' :: stripFrom .plain operand = _
  rw [h]
  rfl

/-- The line defines no label, even if the operand ends in a colon: there is a space in it. -/
theorem definedLabel?_ldcLine (operand : List Char) : definedLabel? (ldcLine operand) = none := by
  have hgap : (ldcLine operand).any isGap = true := rfl
  unfold definedLabel?
  rw [hgap, Bool.not_true, Bool.and_false]
  exact if_neg Bool.false_ne_true

/-- **An operand that survives the cuts is assembled**: it has no blanks at its ends, no line feed and no
comment. -/
theorem assemble_ldc {text : String} {c : Constant} (htrimmed : Trimmed text.toList)
    (hline : '\n' ∉ text.toList) (hcomment : stripFrom .plain text.toList = text.toList)
    (hc : constant text.toList = .ok c) : assemble ("ldc " ++ text) = .ok [.ldc (some c)] := by
  have htext : ("ldc " ++ text).toList = ldcLine text.toList := String.toList_append
  have hempty : ¬ (ldcLine text.toList).isEmpty := Bool.false_ne_true
  have hnumbered : assembleLines 1 [] [ldcLine text.toList] = .ok [⟨1, .ldc (some c)⟩] := by
    unfold assembleLines
    dsimp only
    rw [stripComment_ldcLine hcomment, trim_ldcLine htrimmed, if_neg hempty, definedLabel?_ldcLine]
    dsimp only
    rw [instruction_ldcLine htrimmed hc]
    rfl
  unfold assemble
  rw [htext, lines_ldcLine hline, hnumbered]
  rfl

/-- **An operand of bare words is assembled** if it is a constant. -/
theorem assemble_spaced {text : String} {w : List Char} {ws : List (List Char)} {c : Constant}
    (htext : text.toList = spaced (w :: ws)) (hbare : ∀ v ∈ w :: ws, Bare v)
    (hc : wordConstant text.toList (w :: ws) = .ok c) : assemble ("ldc " ++ text) = .ok [.ldc (some c)] := by
  have hwords : ∀ v ∈ w :: ws, IsWord v := fun v hv => (hbare v hv).word
  have hmark : ∀ d ∈ text.toList, d ≠ '#' ∧ d ≠ '"' := by
    intro d hd
    rw [htext] at hd
    rcases mem_spaced hd with rfl | ⟨v, hv, hd⟩
    · decide
    · exact (hbare v hv).mark d hd
  have hline : '\n' ∉ text.toList := by
    intro h
    rw [htext] at h
    rcases mem_spaced h with h | ⟨v, hv, h⟩
    · exact absurd h (by decide)
    · exact (hwords v hv).dense '\n' h (by decide)
  have htrimmed : Trimmed text.toList := htext ▸ trimmed_spaced hwords
  have hconstant : constant text.toList = .ok c := by
    obtain ⟨d, rest, hcons, -⟩ := htrimmed.first
    have hquote : ¬ text.toList.head? = some '"' := by
      rw [hcons]
      intro h
      exact (hmark d (hcons ▸ List.mem_cons_self)).2 (Option.some.inj h)
    rw [constant, if_neg hquote, ← hc, htext, words_spaced hwords]
  exact assemble_ldc htrimmed hline (stripFrom_bare hmark) hconstant

/-! ## Words -/

/-- A keyword in front of operands. -/
theorem str_ne_of_first {w : List Char} {c : Char} (h : w.head? = some c) {keyword : String}
    (hne : keyword.toList.head? ≠ some c) : str w ≠ keyword := by
  rintro rfl
  rw [String.toList_ofList] at hne
  exact hne h

theorem str_toList (s : String) : str s.toList = s := String.ofList_toList

theorem wordConstant_class {s w : List Char} {t : Ty} (h : classType w = .ok t) :
    wordConstant s ["class".toList, w] = .ok (.type t) := by
  unfold wordConstant
  dsimp only
  rw [if_pos (str_toList _), h]
  rfl

theorem wordConstant_methodtype {s w : List Char} {t : Ty} (h : methodType w = .ok t) :
    wordConstant s ["methodtype".toList, w] = .ok (.type t) := by
  have hclass : str "methodtype".toList ≠ "class" := str_ne_of_first rfl (by decide)
  unfold wordConstant
  dsimp only
  rw [if_neg hclass, if_pos (str_toList _), h]
  rfl

theorem wordConstant_handle {s kind owner name desc : List Char} {k : Nat}
    (h : Handle.kindOfName? (str kind) = some k) :
    wordConstant s ["handle".toList, kind, owner, name, desc] =
      .ok (.handle ⟨k, str owner, str name, str desc, false⟩) := by
  have hclass : str "handle".toList ≠ "class" := str_ne_of_first rfl (by decide)
  have hmethodtype : str "handle".toList ≠ "methodtype" := str_ne_of_first rfl (by decide)
  unfold wordConstant
  dsimp only
  rw [if_neg hclass, if_neg hmethodtype, if_pos (str_toList _), h]

theorem wordConstant_dynamic (s name desc : List Char) :
    wordConstant s ["dynamic".toList, name, desc] = .ok (.dynamic (str name) (str desc) none []) := by
  have hclass : str "dynamic".toList ≠ "class" := str_ne_of_first rfl (by decide)
  have hmethodtype : str "dynamic".toList ≠ "methodtype" := str_ne_of_first rfl (by decide)
  have hhandle : str "dynamic".toList ≠ "handle" := str_ne_of_first rfl (by decide)
  unfold wordConstant
  dsimp only
  rw [if_neg hclass, if_neg hmethodtype, if_neg hhandle, if_pos (str_toList _)]

/-- A word that starts like a number is one. -/
theorem wordConstant_number {s w : List Char} {c : Char} (hfirst : w.head? = some c)
    (hc : c ∈ Numeral.signedDigits) : wordConstant s [w] = number s := by
  have hkeyword : ∀ d ∈ ['c', 'm', 'h', 'd'], d ≠ c := by
    rintro d hd rfl
    have hall : ∀ d ∈ ['c', 'm', 'h', 'd'], d ∉ Numeral.signedDigits :=
      List.all_iff_forall_prop.mp (by decide)
    exact hall d hd hc
  have hclass : str w ≠ "class" :=
    str_ne_of_first hfirst fun h => hkeyword 'c' (by decide) (Option.some.inj h)
  have hmethodtype : str w ≠ "methodtype" :=
    str_ne_of_first hfirst fun h => hkeyword 'm' (by decide) (Option.some.inj h)
  have hhandle : str w ≠ "handle" :=
    str_ne_of_first hfirst fun h => hkeyword 'h' (by decide) (Option.some.inj h)
  have hdynamic : str w ≠ "dynamic" :=
    str_ne_of_first hfirst fun h => hkeyword 'd' (by decide) (Option.some.inj h)
  unfold wordConstant
  dsimp only
  rw [if_neg hclass, if_neg hmethodtype, if_neg hhandle, if_neg hdynamic]
  rfl

/-! ## Types -/

/-- **Descriptors are told from names of classes by their shape**: a letter alone, a `[` in front, or `L` in front
and `;` at the end. -/
theorem shape_of_isResult {s : List Char} (h : Desc.IsResult s) :
    (Text.size s = 1 || s.head? = some '[' || (s.head? = some 'L' && endsWith ';' s)) = true := by
  cases h with
  | void => rfl
  | field hfield =>
    cases hfield with
    | @primitive dimensions c hdims hc =>
      cases dimensions with
      | zero =>
        have hsize : ∀ c ∈ ['Z', 'C', 'B', 'S', 'I', 'F', 'J', 'D'], Text.size [c] = 1 :=
          List.all_iff_forall_prop.mp (by decide)
        rw [List.replicate_zero, List.nil_append, hsize c hc]
        rfl
      | succ dimensions =>
        rw [List.replicate_succ, List.cons_append]
        simp
    | @object dimensions name hdims hne hname =>
      cases dimensions with
      | zero =>
        have hlast : ('L' :: (name ++ [';'])).getLast? = some ';' := by
          rw [← List.cons_append, List.getLast?_concat]
        rw [List.replicate_zero, List.nil_append]
        simp [endsWith, hlast]
      | succ dimensions =>
        rw [List.replicate_succ, List.cons_append]
        simp

/-- **The descriptor of a type is taken for one**, and not for the name of a class. -/
theorem classType_of_parse {text : String} {t : Ty} (h : Desc.parse text = .ok t) (hsort : t.sort ≠ .method) :
    classType text.toList = .ok t := by
  obtain ⟨hdescriptor, ht⟩ := Desc.parse_eq_ok_iff.mp h
  have hresult : Desc.IsResult text.toList := by
    refine (Desc.isDescriptor_iff_isResult ?_).mp hdescriptor
    -- With a parenthesis in front it would be the type of a method.
    intro rest htext
    rw [htext] at ht
    rw [ht] at hsort
    exact hsort rfl
  rw [classType, if_pos (shape_of_isResult hresult), str_toList, h]
  rfl

theorem text_type {t : Ty} (h : t.sort ≠ .method) : (Constant.type t).text = "class " ++ t.descriptor := by
  cases t with
  | method d => exact absurd rfl h
  | _ => rfl

/-! ## Numbers -/

theorem endsWith_eq_false {c : Char} {s : List Char} (h : c ∉ s) : endsWith c s = false := by
  unfold endsWith
  rw [beq_eq_false_iff_ne]
  intro hlast
  exact h (List.mem_of_getLast? hlast)

/-- **A number without a letter at its end is an `int`.** -/
theorem number_int (v : Int32) : number (Numeral.toText v.toInt).toList = .ok (.int v) := by
  have hchars : ∀ c ∈ (Numeral.toText v.toInt).toList, c ∈ Numeral.signedDigits := fun c =>
    Numeral.mem_toText
  have hread : Numeral.readSigned 32 (Numeral.toText v.toInt).toList = .ok v.toInt :=
    Numeral.readSigned_toText (by decide) ⟨v.le_toInt, v.toInt_lt⟩
  generalize (Numeral.toText v.toInt).toList = s at hchars hread
  have hletter : ∀ c, c ∉ Numeral.signedDigits → c ∉ s := fun c hc hmem => hc (hchars c hmem)
  have hpoint : s.any (fun c => c == '.' || c == 'e') = false := by
    rw [List.any_eq_false]
    intro c hc
    have hall : ∀ c ∈ Numeral.signedDigits, ¬ (c == '.' || c == 'e') = true :=
      List.all_iff_forall_prop.mp (by decide)
    exact hall c (hchars c hc)
  have hnan : (s == ['n', 'a', 'n']) = false := by
    rw [beq_eq_false_iff_ne]
    rintro rfl
    exact absurd (hchars 'n' (by decide)) (by decide)
  -- No test for the letters of the other types of numbers finds one.
  unfold number
  dsimp only
  rw [Numeral.lower_eq_of_signedDigits hchars, endsWith_eq_false (hletter 'l' (by decide)),
    endsWith_eq_false (hletter 'f' (by decide)), endsWith_eq_false (hletter 'd' (by decide)), hpoint, hnan]
  simp only [Bool.and_false, Bool.or_false, Bool.false_eq_true, if_false]
  rw [integer, hread]
  show Except.ok (Constant.int (Int32.ofInt v.toInt)) = _
  rw [Int32.ofInt_toInt]

/-- **An `L` at the end makes it a `long`.** -/
theorem number_long (v : Int64) :
    number ((Numeral.toText v.toInt).toList ++ ['L']) = .ok (.long v) := by
  have hchars : ∀ c ∈ (Numeral.toText v.toInt).toList, c ∈ Numeral.signedDigits := fun c =>
    Numeral.mem_toText
  have hread : Numeral.readSigned 64 (Numeral.toText v.toInt).toList = .ok v.toInt :=
    Numeral.readSigned_toText (by decide) ⟨v.le_toInt, v.toInt_lt⟩
  generalize (Numeral.toText v.toInt).toList = s at hchars hread
  have hlower : lower (s ++ ['L']) = s ++ ['l'] := by
    unfold lower
    rw [List.map_append]
    exact congrArg (· ++ ['l']) (Numeral.lower_eq_of_signedDigits hchars)
  have hlast : endsWith 'l' (s ++ ['l']) = true := by
    unfold endsWith
    rw [List.getLast?_concat]
    rfl
  unfold number
  dsimp only
  rw [hlower, hlast, if_pos rfl, List.dropLast_concat, integer, hread]
  show Except.ok (Constant.long (Int64.ofInt v.toInt)) = _
  rw [Int64.ofInt_toInt]

theorem bare_of_signedDigits {s : List Char} (hne : s ≠ []) (h : ∀ c ∈ s, c ∈ 'L' :: Numeral.signedDigits) :
    Bare s := by
  have hall : ∀ c ∈ 'L' :: Numeral.signedDigits, ¬ isBlank c ∧ c ≠ '#' ∧ c ≠ '"' :=
    List.all_iff_forall_prop.mp (by decide)
  exact bare_iff.mpr ⟨hne, fun c hc => hall c (h c hc)⟩

theorem exists_first_toText (n : Int) :
    ∃ c rest, (Numeral.toText n).toList = c :: rest ∧ c ∈ Numeral.signedDigits := by
  obtain ⟨c, rest, hcons⟩ := List.exists_cons_of_ne_nil (Numeral.toText_ne_nil n)
  exact ⟨c, rest, hcons, Numeral.mem_toText (hcons ▸ List.mem_cons_self)⟩

/-! ## Handles -/

/-- **The nine kinds have names**, which are bare words. -/
theorem kindName_spec {kind : Int} (h : 1 ≤ kind ∧ kind ≤ 9) :
    ∃ k : Nat, kind = k ∧ Handle.kindOfName? (Handle.kindName kind) = some k ∧
      Bare (Handle.kindName kind).toList := by
  have hall : ∀ i : Fin 9, Handle.kindOfName? (Handle.kindName (i.val + 1 : Nat)) = some (i.val + 1) ∧
      Bare (Handle.kindName (i.val + 1 : Nat)).toList := by decide +kernel
  obtain ⟨k, rfl⟩ := Int.eq_ofNat_of_zero_le (show 0 ≤ kind by omega)
  have hk : k - 1 + 1 = k := by omega
  have hkind := hall ⟨k - 1, by omega⟩
  simp only [hk] at hkind
  exact ⟨k, rfl, hkind⟩

/-! ## Constants -/

/-- A keyword with a space behind it, in front of words. -/
theorem toList_keyword {keyword front : String} (h : front.toList = keyword.toList ++ [' ']) {rest : String}
    {w : List Char} {ws : List (List Char)} (hrest : rest.toList = spaced (w :: ws)) :
    (front ++ rest).toList = spaced (keyword.toList :: w :: ws) := by
  rw [String.toList_append, h, hrest, List.append_assoc]
  rfl

/-- Names with spaces between them. -/
theorem toList_append_space (name : String) {rest : String} {w : List Char} {ws : List (List Char)}
    (hrest : rest.toList = spaced (w :: ws)) :
    (name ++ (" " ++ rest)).toList = spaced (name.toList :: w :: ws) := by
  have hspace : " ".toList = [' '] := by decide
  rw [String.toList_append, String.toList_append, hspace, hrest]
  rfl

theorem assemble_int (v : Int32) :
    assemble ("ldc " ++ (Constant.int v).text) = .ok [.ldc (some (.int v))] := by
  obtain ⟨d, rest, hcons, hd⟩ := exists_first_toText v.toInt
  have htext : (Constant.int v).text.toList = spaced [(Numeral.toText v.toInt).toList] := rfl
  refine assemble_spaced htext ?_ ?_
  · intro w hw
    rw [List.mem_singleton.mp hw]
    exact bare_of_signedDigits (Numeral.toText_ne_nil _) fun c hc =>
      List.mem_cons_of_mem _ (Numeral.mem_toText hc)
  · rw [wordConstant_number (hcons ▸ rfl) hd]
    exact number_int v

theorem assemble_long (v : Int64) :
    assemble ("ldc " ++ (Constant.long v).text) = .ok [.ldc (some (.long v))] := by
  obtain ⟨d, rest, hcons, hd⟩ := exists_first_toText v.toInt
  have htext : (Constant.long v).text.toList = spaced [(Numeral.toText v.toInt).toList ++ ['L']] :=
    String.toList_append
  refine assemble_spaced htext ?_ ?_
  · intro w hw
    rw [List.mem_singleton.mp hw]
    refine bare_of_signedDigits (List.append_ne_nil_of_right_ne_nil _ (List.cons_ne_nil _ _)) ?_
    intro c hc
    rcases List.mem_append.mp hc with hc | hc
    · exact List.mem_cons_of_mem _ (Numeral.mem_toText hc)
    · rw [List.mem_singleton.mp hc]
      exact List.mem_cons_self
  · rw [wordConstant_number (by rw [hcons]; rfl) hd, htext]
    exact number_long v

theorem assemble_string (bytes : List UInt8) :
    assemble ("ldc " ++ (Constant.string bytes).text) = .ok [.ldc (some (.string bytes))] := by
  have hquote : (quoteBytes bytes).toList.head? = some '"' := by
    rw [quoteBytes, String.toList_ofList]
    rfl
  have hconstant : constant (quoteBytes bytes).toList = .ok (.string bytes) := by
    rw [constant, if_pos hquote, unquote?_quoteBytes]
  exact assemble_ldc (trimmed_quoteBytes bytes) (newline_not_mem_quoteBytes bytes)
    (stripFrom_quoteBytes bytes) hconstant

/-- **A type reads back**: that of a method by its own keyword, any other as a class literal. -/
theorem assemble_type {text : String} {t : Ty} (hparse : Desc.parse text = .ok t) (hbare : Bare text.toList) :
    assemble ("ldc " ++ (Constant.type t).text) = .ok [.ldc (some (.type t))] := by
  obtain ⟨hdescriptor, ht⟩ := Desc.parse_eq_ok_iff.mp hparse
  -- What is written is the text that was parsed.
  have hkept : t.descriptor = text := by rw [ht, hdescriptor.descriptor_typeOf, String.ofList_toList]
  by_cases hsort : t.sort = .method
  · obtain ⟨d, rfl⟩ : ∃ d, t = .method d := by
      cases t with
      | method d => exact ⟨d, rfl⟩
      | _ => exact nomatch hsort
    obtain rfl : d = text := hkept
    have hmethod : methodType d.toList = .ok (.method d) := by
      rw [methodType, str_toList, Desc.parseMethod_of_parse hparse]
      rfl
    have htext : ("methodtype " ++ d).toList = spaced ["methodtype".toList, d.toList] :=
      toList_keyword (by decide) rfl
    refine assemble_spaced htext ?_ (wordConstant_methodtype hmethod)
    simp only [List.forall_mem_cons]
    exact ⟨by decide, hbare, nofun⟩
  · rw [text_type hsort, hkept]
    have htext : ("class " ++ text).toList = spaced ["class".toList, text.toList] :=
      toList_keyword (by decide) rfl
    refine assemble_spaced htext ?_ (wordConstant_class (classType_of_parse hparse hsort))
    simp only [List.forall_mem_cons]
    exact ⟨by decide, hbare, nofun⟩

theorem assemble_handle {kind : Int} {owner name desc : String} (hkind : 1 ≤ kind ∧ kind ≤ 9)
    (howner : Bare owner.toList) (hname : Bare name.toList) (hdesc : Bare desc.toList) :
    assemble ("ldc " ++ (Constant.handle ⟨kind, owner, name, desc, false⟩).text) =
      .ok [.ldc (some (.handle ⟨kind, owner, name, desc, false⟩))] := by
  obtain ⟨k, rfl, hk, hkindName⟩ := kindName_spec hkind
  have htext : (Constant.handle ⟨k, owner, name, desc, false⟩).text.toList =
      spaced ["handle".toList, (Handle.kindName k).toList, owner.toList, name.toList, desc.toList] := by
    unfold Constant.text Handle.text
    simp only [String.append_assoc]
    exact toList_keyword (by decide) (toList_append_space _ (toList_append_space _ (toList_append_space _ rfl)))
  have hkeyword : Handle.kindOfName? (str (Handle.kindName k).toList) = some k := by rw [str_toList, hk]
  refine assemble_spaced htext ?_ ?_
  · simp only [List.forall_mem_cons]
    exact ⟨by decide, hkindName, howner, hname, hdesc, nofun⟩
  · rw [wordConstant_handle hkeyword, str_toList, str_toList, str_toList]

theorem assemble_dynamic {name desc : String} (hname : Bare name.toList) (hdesc : Bare desc.toList) :
    assemble ("ldc " ++ (Constant.dynamic name desc none []).text) =
      .ok [.ldc (some (.dynamic name desc none []))] := by
  have htext : (Constant.dynamic name desc none []).text.toList =
      spaced ["dynamic".toList, name.toList, desc.toList] := by
    unfold Constant.text
    simp only [String.append_assoc]
    exact toList_keyword (by decide) (toList_append_space _ rfl)
  refine assemble_spaced htext ?_ ?_
  · simp only [List.forall_mem_cons]
    exact ⟨by decide, hname, hdesc, nofun⟩
  · rw [wordConstant_dynamic, str_toList, str_toList]

/-- **Constants read back.** The line with `ldc` and the text of a constant that a listing can write is assembled
to the one instruction that loads this constant. -/
theorem constants_reassemble {c : Constant} (h : c.Writable) :
    assemble ("ldc " ++ c.text) = .ok [.ldc (some c)] := by
  cases h with
  | int v => exact assemble_int v
  | long v => exact assemble_long v
  | string bytes => exact assemble_string bytes
  | type hparse hbare => exact assemble_type hparse hbare
  | handle hkind howner hname hdesc => exact assemble_handle hkind howner hname hdesc
  | dynamic hname hdesc => exact assemble_dynamic hname hdesc

/-- The least `long`, a string with a comment sign, a quote, a backslash, a line feed and a stray byte, and a
handle. -/
theorem constants_reassemble_three :
    assemble "ldc -9223372036854775808L" = .ok [.ldc (some (.long Int64.minValue))] ∧
    assemble "ldc \"#\\\"\\\\\\n\\xff\"" = .ok [.ldc (some (.string [0x23, 0x22, 0x5c, 0x0a, 0xff]))] ∧
    assemble "ldc handle newinvokespecial p/C <init> ()V" =
      .ok [.ldc (some (.handle ⟨8, "p/C", "<init>", "()V", false⟩))] := by
  -- The three lines are what printing makes of the constants.
  have hlong : "ldc " ++ (Constant.long Int64.minValue).text = "ldc -9223372036854775808L" := by decide +kernel
  have hstring : "ldc " ++ (Constant.string [0x23, 0x22, 0x5c, 0x0a, 0xff]).text =
      "ldc \"#\\\"\\\\\\n\\xff\"" := by decide +kernel
  have hhandle : "ldc " ++ (Constant.handle ⟨8, "p/C", "<init>", "()V", false⟩).text =
      "ldc handle newinvokespecial p/C <init> ()V" := by decide +kernel
  have hwritable : (Constant.handle ⟨8, "p/C", "<init>", "()V", false⟩).Writable :=
    .handle (by decide) (by decide) (by decide) (by decide)
  rw [← hlong, ← hstring, ← hhandle]
  exact ⟨constants_reassemble (.long _), constants_reassemble (.string _), constants_reassemble hwritable⟩

end Assembly

end StackMap
