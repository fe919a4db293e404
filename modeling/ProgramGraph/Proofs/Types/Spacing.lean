import ProgramGraph.Proofs.Types.Levels
import ProgramGraph.Proofs.Types.NormalForm

set_option autoImplicit false

/-!
# Blanks in front of the marks

Type text often has blanks between a name and its adjustment, and between the marks of the adjustment.
Cleaning takes some of them away, those between two brackets, and reading leaves out the others. So such
text is read as the type without blanks, unless the first of them stands where a blank is expected
behind a modifier: directly behind a word of letters that has no modifier in front of it.

## Main definitions

* `ProgramGraph.Descriptor.spaced` — an adjustment with blanks in front of its marks.
* `ProgramGraph.Descriptor.spread` — the written form of a type with such an adjustment.
* `ProgramGraph.Descriptor.Apart` — the name is told apart from a modifier.

## Main results

* `ProgramGraph.Descriptor.exists_eraseSizes_spaced` — taking sizes away leaves blanks in front of marks.
* `ProgramGraph.Descriptor.Legible.exists_pass_spaced` — a pass does nothing else.
* `ProgramGraph.Descriptor.parse_spread` — how many blanks there are does not matter.

## Design

Cleaning moves among the texts of one type: each pass changes the numbers of blanks and nothing else,
and it keeps the first number, which tells the name apart. So what cleaning ends on is again a text of
the type, and it need not be known how many blanks are left.
-/

namespace ProgramGraph.Descriptor

open ProgramGraph.Text (isBlank)
open ProgramGraph.Cleaning (clean eraseSizes dropSize isSizeChar)

variable {modifier name marks : List Char} {gaps : List Nat} {c : Char} {t : Descriptor}

/-! ## Blanks and marks -/

/-- Marks with blanks in front of each, as many as the numbers say; behind the last number there are
none. -/
def spaced : List Nat → List Char → List Char
  | _, [] => []
  | gaps, c :: marks => List.replicate (gaps.headD 0) ' ' ++ c :: spaced gaps.tail marks

/-- The written form of a type with blanks in front of the marks of its adjustment. -/
def spread (t : Descriptor) (gaps : List Nat) : String :=
  render { t with adjustment := String.ofList (spaced gaps t.adjustment.toList) }

/-- A descriptor that is spread out is written with blanks between its marks. -/
theorem toList_spread (t : Descriptor) (gaps : List Nat) :
    (t.spread gaps).toList
      = written t.modifier.toList t.name.toList (spaced gaps t.adjustment.toList) := by
  rw [spread, toList_render, String.toList_ofList]

/-- Between marks there are blanks only. -/
theorem mem_spaced (h : c ∈ spaced gaps marks) : c ∈ marks ∨ c = ' ' := by
  induction marks generalizing gaps with
  | nil => cases h
  | cons mark marks ih =>
    rw [spaced, List.mem_append, List.mem_cons] at h
    rcases h with h | rfl | h
    · exact Or.inr (List.eq_of_mem_replicate h)
    · exact Or.inl List.mem_cons_self
    · exact (ih h).imp_left (List.mem_cons_of_mem mark)

/-- Without the blanks, the marks are left. -/
theorem filter_spaced (h : ∀ c ∈ marks, isMark c = true) (gaps : List Nat) :
    (spaced gaps marks).filter (fun c => !isBlank c) = marks := by
  induction marks generalizing gaps with
  | nil => rfl
  | cons mark marks ih =>
    rw [List.forall_mem_cons] at h
    have hblanks : (List.replicate (gaps.headD 0) ' ').filter (fun c => !isBlank c) = [] := by
      rw [List.filter_eq_nil_iff]
      intro c hc
      rw [List.eq_of_mem_replicate hc]
      decide
    rw [spaced, List.filter_append, hblanks, List.nil_append,
      List.filter_cons_of_pos (by simp [isBlank_of_isMark h.1]), ih h.2]

/-- The blanks are in front of marks. -/
theorem getLast?_spaced (gaps : List Nat) (marks : List Char) :
    (spaced gaps marks).getLast? = marks.getLast? := by
  induction marks generalizing gaps with
  | nil => rfl
  | cons mark marks ih =>
    rw [spaced, List.getLast?_append_of_ne_nil _ (List.cons_ne_nil _ _), List.getLast?_cons, ih,
      List.getLast?_cons]

/-! ## Sizes among marks -/

/-- A size among marks is made of blanks, so that taking it away changes their numbers.

**Proof sketch.** A size ends at a closing bracket. If the first mark is one, the blanks in front of it are
taken away, and otherwise there is no size. -/
theorem exists_dropSize_spaced (h : ∀ c ∈ marks, isMark c = true) (gaps : List Nat) :
    ∃ gaps', dropSize (spaced gaps marks) = spaced gaps' marks := by
  cases marks with
  | nil => exact ⟨[], rfl⟩
  | cons mark marks =>
    have hblanks : ∀ c ∈ List.replicate (gaps.headD 0) ' ', isSizeChar c = true := fun c hc => by
      rw [List.eq_of_mem_replicate hc]
      rfl
    by_cases hmark : mark = ']'
    · subst hmark
      refine ⟨0 :: gaps.tail, ?_⟩
      rw [spaced, Cleaning.dropSize_append _ hblanks]
      rfl
    · refine ⟨gaps, ?_⟩
      have hnot : isSizeChar mark = false := by
        rcases isMark_iff.mp (h mark List.mem_cons_self) with rfl | rfl | rfl <;> decide +kernel
      have hdrop : (spaced gaps (mark :: marks)).dropWhile isSizeChar = mark :: spaced gaps.tail marks := by
        rw [spaced, List.dropWhile_append_of_pos hblanks, List.dropWhile_cons_of_neg (by simp [hnot])]
      unfold Cleaning.dropSize
      rw [hdrop]
      split
      · next rest heq => exact absurd (List.cons.inj heq).1 hmark
      · rfl

/-- **Taking sizes away** leaves blanks in front of marks, and the first ones stay. -/
theorem exists_eraseSizes_spaced (h : ∀ c ∈ marks, isMark c = true) (gaps : List Nat) :
    ∃ gaps', eraseSizes (spaced gaps marks) = spaced gaps' marks ∧ gaps'.headD 0 = gaps.headD 0 := by
  induction marks generalizing gaps with
  | nil => exact ⟨gaps, rfl, rfl⟩
  | cons mark marks ih =>
    rw [List.forall_mem_cons] at h
    obtain ⟨more, hmore, -⟩ := ih h.2 gaps.tail
    have hblanks : '[' ∉ List.replicate (gaps.headD 0) ' ' := fun hc =>
      absurd (List.eq_of_mem_replicate hc) (by decide)
    rw [spaced, Cleaning.eraseSizes_append_of_notMem hblanks, eraseSizes, hmore]
    by_cases hmark : mark = '['
    · obtain ⟨more', hmore'⟩ := exists_dropSize_spaced h.2 more
      refine ⟨gaps.headD 0 :: more', ?_, rfl⟩
      rw [if_pos hmark, hmore']
      rfl
    · refine ⟨gaps.headD 0 :: more, ?_, rfl⟩
      rw [if_neg hmark]
      rfl

/-! ## Texts of one type -/

/-- The name is told apart from a modifier: there is a modifier, or no blank is directly behind the name,
or the name has a character that is no letter. -/
def Apart (modifier name : List Char) (gaps : List Nat) : Prop :=
  modifier ≠ [] ∨ gaps.headD 0 = 0 ∨ ∃ c ∈ name, isLetter c = false

/-- Whether a name is told apart depends on the first number of blanks only. -/
theorem Apart.congr {gaps' : List Nat} (h : Apart modifier name gaps)
    (heq : gaps'.headD 0 = gaps.headD 0) : Apart modifier name gaps' := by
  rw [Apart, heq]
  exact h

/-- Without blanks in front of it, a mark is the first character. -/
theorem isMark_of_head?_spaced (hmarks : ∀ c ∈ marks, isMark c = true) (hgap : gaps.headD 0 = 0)
    (hc : (spaced gaps marks).head? = some c) : isMark c = true := by
  cases marks with
  | nil => cases hc
  | cons mark marks =>
    rw [spaced, hgap] at hc
    obtain rfl := Option.some.inj hc
    exact hmarks mark List.mem_cons_self

namespace Legible

variable (h : Legible modifier name marks)
include h

/-- Blanks apart, the characters are those of the written form. -/
theorem notMem_written_spaced (hname : isNameChar c = false) (hmark : isMark c = false)
    (hblank : c ≠ ' ') (gaps : List Nat) : c ∉ written modifier name (spaced gaps marks) := by
  have hnot := h.notMem_written hname hmark hblank
  simp only [written, List.mem_append, not_or] at hnot ⊢
  exact ⟨hnot.1, hnot.2.1, fun hc => (mem_spaced hc).elim hnot.2.2 hblank⟩

/-- A name that is told apart is not taken for a modifier.

**Proof sketch.** If there were a modifier, it would be made of letters and end at the first blank, so it
would consist of the name and what comes before this blank. But then the gap is at the beginning, the name is
made of more than letters, or there is a mark in between, which is no letter. -/
theorem splitModifier?_append_spaced (hapart : Apart modifier name gaps) (hnone : modifier = []) :
    splitModifier? (name ++ spaced gaps marks) = none := by
  cases hsplit : splitModifier? (name ++ spaced gaps marks) with
  | none => rfl
  | some found =>
    -- what would be the modifier goes on behind the name
    exfalso
    obtain ⟨word, rest⟩ := found
    obtain ⟨hletters, htext⟩ := splitModifier?_eq_some_iff.mp hsplit
    obtain ⟨more, rfl, hmore⟩ : ∃ more, word = name ++ more ∧ spaced gaps marks = more ++ ' ' :: rest := by
      rcases List.append_eq_append_iff.mp htext with ⟨more, hword, hmore⟩ | ⟨more, hname, hmore⟩
      · exact ⟨more, hword, hmore⟩
      · cases more with
        | nil => exact ⟨[], by simp [hname], by simpa using hmore.symm⟩
        | cons c more =>
          obtain ⟨rfl, -⟩ := List.cons.inj hmore
          exact absurd (h.nameChars ' ' (by rw [hname]; simp)) (by decide)
    rcases hapart with hsome | hgap | ⟨c, hc, hnot⟩
    · exact hsome hnone
    · have hhead : ∀ c, (more ++ ' ' :: rest).head? = some c → isMark c = true := fun c =>
        hmore ▸ isMark_of_head?_spaced h.marks hgap
      cases more with
      | nil => exact absurd (hhead ' ' rfl) (by decide)
      | cons c more =>
        have hname := isNameChar_of_isLetter (hletters c (by simp))
        rw [isNameChar_of_isMark (hhead c rfl)] at hname
        cases hname
    · rw [hletters c (List.mem_append_left _ hc)] at hnot
      cases hnot

/-- **The parts are found.** -/
theorem split?_spaced (hapart : Apart modifier name gaps) :
    split? (written modifier name (spaced gaps marks)) = some (modifier, name, marks) := by
  refine h.split?_written (h.splitModifier?_append_spaced hapart) (fun c hc => ?_)
    (filter_spaced h.marks gaps)
  refine isAdjustmentChar_iff.mpr ((mem_spaced hc).imp (h.marks c) fun hblank => ?_)
  rw [hblank]
  decide

/-- **A pass** does nothing but take blanks away behind the first mark.

**Proof sketch.** Each of the stages of a pass but one looks for something that does not occur: struct
prefixes, braces, parentheses, dots and blanks at the ends. The stage for sizes takes away what is blank
behind the first mark. -/
theorem exists_pass_spaced (hnamed : name ≠ []) (hapart : Apart modifier name gaps) :
    ∃ gaps', Cleaning.pass (written modifier name (spaced gaps marks)) = written modifier name (spaced gaps' marks) ∧
      gaps'.headD 0 = gaps.headD 0 := by
  obtain ⟨gaps', hsizes, hhead⟩ := exists_eraseSizes_spaced h.marks gaps
  have hstruct : Cleaning.eraseStruct (written modifier name (spaced gaps marks))
      = written modifier name (spaced gaps marks) :=
    h.eraseStruct_written (h.splitModifier?_append_spaced hapart)
  have hends : Text.trim (written modifier name (spaced gaps' marks))
      = written modifier name (spaced gaps' marks) := by
    have hfirst : (written modifier name (spaced gaps' marks)).head? = (written modifier name marks).head? := by
      obtain ⟨c, more, rfl⟩ := List.exists_cons_of_ne_nil hnamed
      simp only [written, List.head?_append, List.cons_append, List.head?_cons]
    have hlast : (written modifier name (spaced gaps' marks)).getLast?
        = (written modifier name marks).getLast? := by
      simp only [written, List.getLast?_append, getLast?_spaced]
    rw [Cleaning.trim_eq_self_iff, hfirst, hlast]
    exact Cleaning.trim_eq_self_iff.mp h.clean_written.ends
  have hnamespaces : Cleaning.eraseSpans '{' ['}', ':', ':'] (written modifier name (spaced gaps marks))
      = written modifier name (spaced gaps marks) :=
    Cleaning.eraseSpans_of_notMem (h.notMem_written_spaced (by decide) (by decide) (by decide) _) _
  have harguments : Cleaning.eraseSpans '(' [')'] (written modifier name (spaced gaps' marks))
      = written modifier name (spaced gaps' marks) :=
    Cleaning.eraseSpans_of_notMem (h.notMem_written_spaced (by decide) (by decide) (by decide) _) _
  have hdots : Cleaning.dotted (written modifier name (spaced gaps' marks))
      = written modifier name (spaced gaps' marks) :=
    Cleaning.dotted_of_notMem (h.notMem_written_spaced (by decide) (by decide) (by decide) _)
  refine ⟨gaps', ?_, hhead⟩
  rw [Cleaning.pass, hstruct, hnamespaces, h.eraseSizes_written, hsizes, harguments, hdots, hends]

/-- **Any number of passes** lead from a text of a type to a text of the same type. -/
theorem exists_passes_spaced (hnamed : name ≠ []) (hapart : Apart modifier name gaps) (n : Nat) :
    ∃ gaps', Cleaning.pass^[n] (written modifier name (spaced gaps marks))
        = written modifier name (spaced gaps' marks) ∧ Apart modifier name gaps' := by
  induction n generalizing gaps with
  | zero => exact ⟨gaps, rfl, hapart⟩
  | succ n ih =>
    obtain ⟨gaps', hpass, hhead⟩ := h.exists_pass_spaced hnamed hapart
    rw [Function.iterate_succ_apply, hpass]
    exact ih (hapart.congr hhead)

/-- **What cleaning ends on** is a text of the same type. -/
theorem exists_clean_spaced (hnamed : name ≠ []) (hapart : Apart modifier name gaps) :
    ∃ gaps', clean (written modifier name (spaced gaps marks)) = written modifier name (spaced gaps' marks) ∧
      Apart modifier name gaps' := by
  obtain ⟨n, -, hclean, -⟩ := Cleaning.exists_rounds (written modifier name (spaced gaps marks))
  rw [hclean, ← Function.iterate_succ_apply]
  exact h.exists_passes_spaced hnamed hapart (n + 1)

end Legible

/-! ## Reading -/

/-- **Blanks in front of the marks do not matter.** A well-formed type is read from its written form with
any numbers of blanks in front of the marks of the adjustment, as it is without them, if the name is
told apart from a modifier.

**Proof sketch.** A pass takes away blanks behind the first mark, and nothing else of such a text. So it ends
on the same parts with fewer blanks between them (`exists_clean_spaced`), and the condition on the name
carries over to these. A text of such parts is cut where it was put together (`split?_spaced`), since blanks
before marks are skipped. -/
theorem parse_spread (h : t.WellFormed) (gaps : List Nat)
    (hapart : t.hasModifier = true ∨ gaps.headD 0 = 0 ∨ ∃ c ∈ t.name.toList, isLetter c = false) :
    parse (t.spread gaps) = t ∧ parse t.render = t := by
  refine ⟨?_, h.parse_render⟩
  have hapart' : Apart t.modifier.toList t.name.toList gaps := by
    refine hapart.imp_left fun hmodifier => ?_
    simpa [hasModifier] using hmodifier
  have hnamed : t.name.toList ≠ [] := fun hnone => h.named (String.toList_eq_nil_iff.mp hnone)
  obtain ⟨gaps', hclean, hclear⟩ := h.legible.exists_clean_spaced hnamed hapart'
  have hplaceholder := not_isPlaceholder_of_split? (h.legible.split?_spaced hapart')
  rw [parse, toList_spread, parseChars_of_split?_some hplaceholder, ofParts_toList]
  rw [hclean, h.legible.split?_spaced hclear]

/-- Blanks in front of all marks of a qualified type, and between the brackets. -/
theorem parse_spread_qualified :
    let t : Descriptor := { name := "char", adjustment := "*[]", modifier := "const" }
    t.WellFormed ∧ (t.hasModifier = true ∨ [2, 1, 3].headD 0 = 0 ∨ ∃ c ∈ t.name.toList, isLetter c = false) ∧
      t.spread [2, 1, 3] = "const char  * [   ]" ∧ parse (t.spread [2, 1, 3]) = t ∧ parse t.render = t := by
  intro t
  have h : t.WellFormed := by decide
  have hapart : t.hasModifier = true ∨ [2, 1, 3].headD 0 = 0 ∨ ∃ c ∈ t.name.toList, isLetter c = false :=
    Or.inl (by decide)
  exact ⟨h, hapart, by decide +kernel, parse_spread h _ hapart⟩

/-- Words of letters are not told apart from what a blank is expected behind: the word that marks
structures, or a modifier. So two well-formed types are not read from their written forms with a blank. -/
theorem parse_spread_letters :
    let s : Descriptor := { name := "struct", adjustment := "*" }
    let t : Descriptor := { name := "char", adjustment := "*" }
    s.WellFormed ∧ s.spread [1] = "struct *" ∧ parse (s.spread [1]) ≠ s ∧
      t.WellFormed ∧ t.spread [1] = "char *" ∧ parse (t.spread [1]) ≠ t := by
  decide +kernel

end ProgramGraph.Descriptor
