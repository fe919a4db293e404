import Mathlib
import ProgramGraph.Proofs.Types.Cleaning
import ProgramGraph.Type.Parse

set_option autoImplicit false

/-!
# Reading the written form of a type

A text is read as a type, and the written form of that type is read again. Where the cleaned text has
parts, the written form has the same parts: writing leaves out blanks between the marks of an
adjustment, and nothing of what cleaning takes away comes back. Where it has none, the written form is
the cleaned text, which is clean. So the second reading agrees with the first, but for one case:
placeholders are looked for before a text is cleaned and not afterwards, and cleaning can put one
together.

## Main definitions

* `ProgramGraph.Descriptor.written` — the written form of three parts.
* `ProgramGraph.Descriptor.Legible` — parts that can be told apart in the written form.

## Main results

* `ProgramGraph.Descriptor.legible_of_split?` — the parts of a clean text are legible.
* `ProgramGraph.Descriptor.Legible.parseChars_written` — legible parts are read back.
* `ProgramGraph.Descriptor.parse_render_parse` — when the second reading agrees with the first.
-/

namespace ProgramGraph.Descriptor

open ProgramGraph.Text (isBlank)
open ProgramGraph.Cleaning (Clean clean clean_clean)

variable {modifier name adjustment text rest : List Char} {c : Char}

/-! ## Classes of characters -/

/-- The marks of an adjustment. -/
def isMark (c : Char) : Bool := c == '[' || c == ']' || c == '*'

/-- The marks are brackets and asterisks. -/
theorem isMark_iff : isMark c = true ↔ c = '[' ∨ c = ']' ∨ c = '*' := by
  simp [isMark, or_assoc]

/-- Letters may stand in names. -/
theorem isNameChar_of_isLetter (h : isLetter c = true) : isNameChar c = true := by
  rw [isLetter] at h
  simp [isNameChar, Char.isAlphanum, h]

/-- No character of a name is blank. -/
theorem isBlank_of_isNameChar (h : isNameChar c = true) : isBlank c = false := by
  by_contra hblank
  have hrange : 36 ≤ c.toNat ∧ c.toNat ≤ 122 := by
    simp only [isNameChar, Char.isAlphanum, Char.isAlpha, Char.isUpper, Char.isLower, Char.isDigit,
      Bool.or_eq_true, Bool.and_eq_true, decide_eq_true_eq, beq_iff_eq, UInt32.le_iff_toNat_le,
      ge_iff_le] at h
    rcases h with ((((((h | h) | h) | h) | h) | h) | h) | h
    · exact ⟨Nat.le_trans (by decide) h.1, Nat.le_trans h.2 (by decide)⟩
    · exact ⟨Nat.le_trans (by decide) h.1, Nat.le_trans h.2 (by decide)⟩
    · exact ⟨Nat.le_trans (by decide) h.1, Nat.le_trans h.2 (by decide)⟩
    all_goals subst h; decide
  simp only [isBlank, Bool.or_eq_true, Bool.and_eq_true, decide_eq_true_eq, beq_iff_eq,
    Bool.not_eq_false] at hblank
  omega

/-- Marks are no blanks. -/
theorem isBlank_of_isMark (h : isMark c = true) : isBlank c = false := by
  rcases isMark_iff.mp h with rfl | rfl | rfl <;> decide

/-- Marks may not stand in names. -/
theorem isNameChar_of_isMark (h : isMark c = true) : isNameChar c = false := by
  rcases isMark_iff.mp h with rfl | rfl | rfl <;> decide

/-- The characters of an adjustment are marks and blanks. -/
theorem isAdjustmentChar_iff : isAdjustmentChar c = true ↔ isMark c = true ∨ isBlank c = true := by
  simp [isAdjustmentChar, isMark]

/-! ## Cutting a text -/

/-- What is in front of the first character outside of a class, and what is behind. -/
theorem span_append {p : Char → Bool} {front : List Char} (back : List Char) (hfront : ∀ c ∈ front, p c = true)
    (hback : ∀ c, back.head? = some c → p c = false) :
    (front ++ back).takeWhile p = front ∧ (front ++ back).dropWhile p = back := by
  rw [List.takeWhile_append_of_pos hfront, List.dropWhile_append_of_pos hfront,
    Cleaning.dropWhile_eq_self_iff.mpr hback]
  refine ⟨?_, rfl⟩
  cases back with
  | nil => simp
  | cons c rest => rw [List.takeWhile_cons_of_neg (by simp [hback c rfl]), List.append_nil]

/-- **Where a modifier is found.** -/
theorem splitModifier?_eq_some_iff : splitModifier? text = some (modifier, rest) ↔
    (∀ c ∈ modifier, isLetter c = true) ∧ text = modifier ++ ' ' :: rest := by
  constructor
  · intro h
    unfold splitModifier? at h
    split at h
    · next rest' hdrop =>
      obtain ⟨rfl, rfl⟩ := Prod.mk.inj (Option.some.inj h)
      refine ⟨fun c hc => List.mem_takeWhile_imp hc, ?_⟩
      rw [← hdrop, List.takeWhile_append_dropWhile]
    · cases h
  · rintro ⟨hletters, rfl⟩
    have hspan := span_append (p := isLetter) (' ' :: rest) hletters fun c hc => by
      obtain rfl := Option.some.inj hc
      decide
    simp only [splitModifier?, hspan.1, hspan.2]

/-- Only a modifier can be taken for the word that marks a structure. -/
theorem eraseStruct_eq_self (h : ∀ rest, splitModifier? text ≠ some ("struct".toList, rest)) :
    Cleaning.eraseStruct text = text := by
  unfold Cleaning.eraseStruct
  rw [if_neg]
  intro hprefix
  obtain ⟨rest, htext⟩ := List.isPrefixOf_iff_prefix.mp hprefix
  refine h rest (splitModifier?_eq_some_iff.mpr ⟨List.all_eq_true.mp (by decide), ?_⟩)
  rw [← htext, Cleaning.structWord_eq, List.append_assoc, List.singleton_append]

/-- **Where a name is found,** with an adjustment behind it. -/
theorem splitName?_eq_some_iff : splitName? text = some (name, adjustment) ↔
    ∃ back, (∀ c ∈ name, isNameChar c = true) ∧ (∀ c ∈ back, isAdjustmentChar c = true) ∧
      text = name ++ back ∧ adjustment = back.filter fun c => !isBlank c := by
  constructor
  · intro h
    simp only [splitName?] at h
    split at h
    · next hall =>
      obtain ⟨rfl, rfl⟩ := Prod.mk.inj (Option.some.inj h)
      exact ⟨_, fun c hc => List.mem_takeWhile_imp hc, List.all_eq_true.mp hall,
        List.takeWhile_append_dropWhile.symm, rfl⟩
    · cases h
  · rintro ⟨back, hname, hback, rfl, rfl⟩
    have hspan := span_append (p := isNameChar) back hname fun c hc => by
      rcases isAdjustmentChar_iff.mp (hback c (List.mem_of_head? hc)) with hmark | hblank
      · exact isNameChar_of_isMark hmark
      · by_contra hc'
        rw [isBlank_of_isNameChar (by simpa using hc')] at hblank
        cases hblank
    simp only [splitName?, hspan.1, hspan.2]
    rw [if_pos (List.all_eq_true.mpr hback)]

/-- A text has a name and an adjustment if nothing but an adjustment is behind the name. -/
theorem splitName?_isSome_iff : (splitName? text).isSome ↔
    ∀ c ∈ text.dropWhile isNameChar, isAdjustmentChar c = true := by
  rw [← List.all_eq_true, splitName?]
  split <;> simp_all

/-- **Where parts are found:** behind a modifier, or else without one. A text with a modifier has no
parts without it.

**Proof sketch.** By cases on whether a modifier is split off. If it is and no name follows, then there are no
parts at all: the word would be the name, what follows it would have to be an adjustment, and then the rest
would have been a name with an adjustment itself. -/
theorem split?_eq_some (h : split? text = some (modifier, name, adjustment)) :
    (∃ rest, splitModifier? text = some (modifier, rest) ∧ splitName? rest = some (name, adjustment)) ∨
      (modifier = [] ∧ splitModifier? text = none ∧ splitName? text = some (name, adjustment)) := by
  cases hmodifier : splitModifier? text with
  | none =>
    simp only [split?, hmodifier, Option.bind_eq_bind, Option.bind_none] at h
    obtain ⟨⟨n, a⟩, hname, heq⟩ := Option.map_eq_some_iff.mp h
    obtain ⟨rfl, rfl, rfl⟩ : [] = modifier ∧ n = name ∧ a = adjustment := by simpa using heq
    exact Or.inr ⟨rfl, rfl, hname⟩
  | some found =>
    obtain ⟨m, rest⟩ := found
    cases hname : splitName? rest with
    | some parts =>
      obtain ⟨n, a⟩ := parts
      simp only [split?, hmodifier, hname, Option.bind_eq_bind, Option.bind_some] at h
      obtain ⟨rfl, rfl, rfl⟩ : m = modifier ∧ n = name ∧ a = adjustment := by simpa using h
      exact Or.inl ⟨rest, rfl, hname⟩
    | none =>
      -- without a modifier, the word is the name, and all that follows it is an adjustment
      exfalso
      simp only [split?, hmodifier, hname, Option.bind_eq_bind, Option.bind_some, Option.bind_none] at h
      obtain ⟨_, hwhole, -⟩ := Option.map_eq_some_iff.mp h
      obtain ⟨hletters, rfl⟩ := splitModifier?_eq_some_iff.mp hmodifier
      have hspan := (span_append (p := isNameChar) (' ' :: rest)
        (fun c hc => isNameChar_of_isLetter (hletters c hc)) fun c hc => by
          obtain rfl := Option.some.inj hc
          decide).2
      have hall := splitName?_isSome_iff.mp (Option.isSome_of_mem hwhole)
      rw [hspan] at hall
      have hrest : (splitName? rest).isSome := splitName?_isSome_iff.mpr fun c hc =>
        hall c (List.mem_cons_of_mem _ ((List.dropWhile_sublist _).subset hc))
      rw [hname] at hrest
      cases hrest

/-! ## Legible parts -/

/-- The written form of three parts. -/
def written (modifier name adjustment : List Char) : List Char :=
  (if modifier = [] then [] else modifier ++ [' ']) ++ (name ++ adjustment)

/-- The parts can be told apart in the written form, and cleaning leaves it alone. -/
structure Legible (modifier name adjustment : List Char) : Prop where
  /-- A modifier is written in letters. -/
  letters : ∀ c ∈ modifier, isLetter c = true
  /-- A name is written in the characters of names. -/
  nameChars : ∀ c ∈ name, isNameChar c = true
  /-- An adjustment is written in marks. -/
  marks : ∀ c ∈ adjustment, isMark c = true
  /-- The modifier is not the word that marks a structure. -/
  notStruct : modifier ≠ "struct".toList
  /-- A modifier does not stand alone. -/
  notAlone : modifier ≠ [] → name ++ adjustment ≠ []

/-- The characters of a descriptor's written form. -/
theorem toList_render_ofParts (modifier name adjustment : List Char) :
    (ofParts modifier name adjustment).render.toList = written modifier name adjustment := by
  have hempty : String.ofList modifier = "" ↔ modifier = [] := by
    rw [← String.toList_inj, String.toList_ofList, String.toList_empty]
  have hmodifier : (ofParts modifier name adjustment).hasModifier = decide (modifier ≠ []) := by
    by_cases hnone : modifier = []
    · simp [hasModifier, ofParts, hnone]
    · simp [hasModifier, ofParts, hnone, hempty]
  unfold render written
  rw [hmodifier]
  by_cases hnone : modifier = []
  · simp [ofParts, hnone]
  · simp [ofParts, hnone]

/-- **The parts of a clean text** are legible.

**Proof sketch.** The parts consist of their own characters by the way in which they are cut. A clean text
does not begin with the word that marks a structure, so this is no modifier; and it does not end with a blank,
so a modifier alone is no type. -/
theorem legible_of_split? (hclean : Clean text) (h : split? text = some (modifier, name, adjustment)) :
    Legible modifier name adjustment := by
  have hends := Cleaning.trim_eq_self_iff.mp hclean.ends
  -- what is behind a name are marks and blanks, and only the marks are kept
  have hmarks : ∀ back : List Char, (∀ c ∈ back, isAdjustmentChar c = true) →
      ∀ c ∈ back.filter fun c => !isBlank c, isMark c = true := by
    intro back hback c hc
    obtain ⟨hc, hnot⟩ := List.mem_filter.mp hc
    exact (isAdjustmentChar_iff.mp (hback c hc)).resolve_right (by simpa using hnot)
  rcases split?_eq_some h with ⟨rest, hmodifier, hname⟩ | ⟨rfl, -, hname⟩
  · obtain ⟨hletters, rfl⟩ := splitModifier?_eq_some_iff.mp hmodifier
    obtain ⟨back, hn, hback, rfl, rfl⟩ := splitName?_eq_some_iff.mp hname
    refine ⟨hletters, hn, hmarks back hback, ?_, ?_⟩
    · rintro rfl
      refine Cleaning.not_isPrefix_of_eraseStruct_eq hclean.struct ?_
      rw [Cleaning.structWord_eq, List.append_cons]
      exact List.prefix_append _ _
    · intro _ hnone
      obtain ⟨rfl, hblanks⟩ := List.append_eq_nil_iff.mp hnone
      -- the text would end with a blank
      have hlast : ∀ c ∈ ' ' :: back, isBlank c = true := by
        intro c hc
        rcases List.mem_cons.mp hc with rfl | hc
        · decide
        · simpa using List.filter_eq_nil_iff.mp hblanks c hc
      have hend := hends.2 ((' ' :: back).getLast (List.cons_ne_nil _ _)) (by
        rw [List.nil_append, List.getLast?_append_of_ne_nil _ (List.cons_ne_nil _ _),
          List.getLast?_eq_some_getLast])
      rw [hlast _ (List.getLast_mem _)] at hend
      cases hend
  · obtain ⟨back, hn, hback, rfl, rfl⟩ := splitName?_eq_some_iff.mp hname
    exact ⟨by simp, hn, hmarks back hback, by decide, fun hne => absurd rfl hne⟩

namespace Legible

variable {back : List Char} (h : Legible modifier name adjustment)
include h

/-- The characters of the written form. -/
theorem mem_written (hc : c ∈ written modifier name adjustment) :
    isNameChar c = true ∨ isMark c = true ∨ c = ' ' := by
  rcases List.mem_append.mp hc with hc | hc
  · split at hc
    · cases hc
    · rcases List.mem_append.mp hc with hc | hc
      · exact Or.inl (isNameChar_of_isLetter (h.letters c hc))
      · exact Or.inr (Or.inr (List.mem_singleton.mp hc))
  · rcases List.mem_append.mp hc with hc | hc
    · exact Or.inl (h.nameChars c hc)
    · exact Or.inr (Or.inl (h.marks c hc))

/-- A character that no part can have is not in the written form. -/
theorem notMem_written (hname : isNameChar c = false) (hmark : isMark c = false) (hblank : c ≠ ' ') :
    c ∉ written modifier name adjustment := by
  intro hc
  rcases h.mem_written hc with hc | hc | hc
  · rw [hname] at hc
    cases hc
  · rw [hmark] at hc
    cases hc
  · exact hblank hc

/-- Name and adjustment have no blanks. -/
theorem isBlank_of_mem (hc : c ∈ name ++ adjustment) : isBlank c = false :=
  (List.mem_append.mp hc).elim (fun hc => isBlank_of_isNameChar (h.nameChars c hc)) fun hc =>
    isBlank_of_isMark (h.marks c hc)

/-- The modifier is found, whatever is behind the name, if nothing is taken for one where there is none. -/
theorem splitModifier?_written (hnone : modifier = [] → splitModifier? (name ++ back) = none) :
    splitModifier? (written modifier name back)
      = if modifier = [] then none else some (modifier, name ++ back) := by
  unfold written
  split
  · next hempty => rw [List.nil_append, hnone hempty]
  · exact splitModifier?_eq_some_iff.mpr ⟨h.letters, by simp⟩

/-- The parts are found, if blanks apart the adjustment is behind the name. -/
theorem split?_written (hnone : modifier = [] → splitModifier? (name ++ back) = none)
    (hback : ∀ c ∈ back, isAdjustmentChar c = true)
    (hmarks : (back.filter fun c => !isBlank c) = adjustment) :
    split? (written modifier name back) = some (modifier, name, adjustment) := by
  have hname : splitName? (name ++ back) = some (name, adjustment) :=
    splitName?_eq_some_iff.mpr ⟨back, h.nameChars, hback, rfl, hmarks.symm⟩
  simp only [split?, h.splitModifier?_written hnone]
  split
  · next hempty =>
    subst hempty
    simp [written, hname]
  · simp [hname]

/-- The written form does not begin with the word that marks a structure. -/
theorem eraseStruct_written (hnone : modifier = [] → splitModifier? (name ++ back) = none) :
    Cleaning.eraseStruct (written modifier name back) = written modifier name back := by
  refine eraseStruct_eq_self fun rest hstruct => ?_
  rw [h.splitModifier?_written hnone] at hstruct
  split at hstruct
  · cases hstruct
  · exact h.notStruct (Prod.mk.inj (Option.some.inj hstruct)).1

/-- Without blanks there is no modifier. -/
theorem splitModifier?_append : splitModifier? (name ++ adjustment) = none := by
  cases hsplit : splitModifier? (name ++ adjustment) with
  | none => rfl
  | some found =>
    obtain ⟨-, htext⟩ := splitModifier?_eq_some_iff.mp hsplit
    have hblank : ' ' ∈ name ++ adjustment := by
      rw [htext]
      simp
    exact absurd (h.isBlank_of_mem hblank) (by decide)

/-- **Legible parts are found** in their written form. -/
theorem split?_eq : split? (written modifier name adjustment) = some (modifier, name, adjustment) := by
  refine h.split?_written (fun _ => h.splitModifier?_append)
    (fun c hc => isAdjustmentChar_iff.mpr (Or.inl (h.marks c hc))) ?_
  rw [List.filter_eq_self]
  intro c hc
  rw [isBlank_of_isMark (h.marks c hc)]
  rfl

/-- Sizes are looked for behind the name only. -/
theorem eraseSizes_written :
    Cleaning.eraseSizes (written modifier name back) = written modifier name (Cleaning.eraseSizes back) := by
  rw [written, ← List.append_assoc, Cleaning.eraseSizes_append_of_notMem, List.append_assoc]
  · rfl
  · intro hc
    rcases List.mem_append.mp hc with hc | hc
    · split at hc
      · cases hc
      · rcases List.mem_append.mp hc with hc | hc
        · exact absurd (h.letters _ hc) (by decide)
        · exact absurd (List.mem_singleton.mp hc) (by decide)
    · exact absurd (h.nameChars _ hc) (by decide)

/-- **The written form of legible parts is clean.**

**Proof sketch.** Step by step. None of the characters that open an artifact is written, an array size has
only marks around it, and neither end is blank, as a name or a modifier stands at the beginning. -/
theorem clean_written : Clean (written modifier name adjustment) where
  struct := h.eraseStruct_written fun _ => h.splitModifier?_append
  namespaces := Cleaning.eraseSpans_of_notMem (h.notMem_written (by decide) (by decide) (by decide)) _
  sizes := by
    rw [h.eraseSizes_written, Cleaning.eraseSizes_of_forall]
    intro c hc
    rcases isMark_iff.mp (h.marks c hc) with rfl | rfl | rfl <;> decide +kernel
  arguments := Cleaning.eraseSpans_of_notMem (h.notMem_written (by decide) (by decide) (by decide)) _
  dots := Cleaning.dotted_of_notMem (h.notMem_written (by decide) (by decide) (by decide))
  ends := by
    refine Cleaning.trim_eq_self_iff.mpr ⟨fun c hc => ?_, fun c hc => ?_⟩
    · rw [written] at hc
      split at hc
      · exact h.isBlank_of_mem (List.mem_of_head? hc)
      · next hsome =>
        obtain ⟨first, more, rfl⟩ := List.exists_cons_of_ne_nil hsome
        obtain rfl := Option.some.inj hc
        exact isBlank_of_isNameChar (isNameChar_of_isLetter (h.letters _ List.mem_cons_self))
    · by_cases hnone : name ++ adjustment = []
      · -- then there is no modifier either
        have hmodifier : modifier = [] := by
          by_contra hsome
          exact h.notAlone hsome hnone
        rw [written, if_pos hmodifier, hnone] at hc
        cases hc
      · rw [written, List.getLast?_append_of_ne_nil _ hnone] at hc
        exact h.isBlank_of_mem (List.mem_of_getLast? hc)

end Legible

/-! ## Placeholders -/

/-- What occurs in a text has its characters there. -/
theorem subset_of_occurs {word : List Char} (h : occurs word text = true) : word ⊆ text := by
  induction text with
  | nil =>
    rw [occurs, List.isEmpty_iff] at h
    exact h ▸ List.Subset.refl _
  | cons c rest ih =>
    rw [occurs, Bool.or_eq_true] at h
    rcases h with hprefix | hrest
    · exact (List.isPrefixOf_iff_prefix.mp hprefix).subset
    · exact List.subset_cons_of_subset c (ih hrest)

/-- A placeholder has a question mark or an at sign. -/
theorem mem_of_isPlaceholder (h : isPlaceholder text = true) : '?' ∈ text ∨ '@' ∈ text := by
  simp only [isPlaceholder, placeholders, List.any_cons, List.any_nil, Bool.or_false, Bool.or_eq_true] at h
  exact h.imp (fun h => subset_of_occurs h (by decide)) fun h => subset_of_occurs h (by decide)

/-- **A text with parts** is no placeholder. -/
theorem not_isPlaceholder_of_split? (h : split? text = some (modifier, name, adjustment)) :
    isPlaceholder text = false := by
  have hchars : ∀ c ∈ text, isNameChar c = true ∨ isAdjustmentChar c = true := by
    have hof : ∀ {text : List Char}, splitName? text = some (name, adjustment) →
        ∀ c ∈ text, isNameChar c = true ∨ isAdjustmentChar c = true := by
      intro text hname c hc
      obtain ⟨back, hn, hback, rfl, -⟩ := splitName?_eq_some_iff.mp hname
      exact (List.mem_append.mp hc).imp (hn c) (hback c)
    intro c hc
    rcases split?_eq_some h with ⟨rest, hmodifier, hname⟩ | ⟨-, -, hname⟩
    · obtain ⟨hletters, rfl⟩ := splitModifier?_eq_some_iff.mp hmodifier
      rcases List.mem_append.mp hc with hc | hc
      · exact Or.inl (isNameChar_of_isLetter (hletters c hc))
      · rcases List.mem_cons.mp hc with rfl | hc
        · exact Or.inr (by decide)
        · exact hof hname c hc
    · exact hof hname c hc
  by_contra hplaceholder
  rcases mem_of_isPlaceholder (by simpa using hplaceholder) with hmem | hmem
  · exact absurd (hchars _ hmem) (by decide)
  · exact absurd (hchars _ hmem) (by decide)

/-! ## Reading again -/

/-- A text that is no placeholder and has no parts is read as a name. -/
theorem parseChars_of_split?_none (hplaceholder : isPlaceholder text = false)
    (h : split? (clean text) = none) : parseChars text = ofParts [] (clean text) [] := by
  simp only [parseChars, hplaceholder, h]
  rfl

/-- A text that is no placeholder and has parts is read as these. -/
theorem parseChars_of_split?_some (hplaceholder : isPlaceholder text = false)
    (h : split? (clean text) = some (modifier, name, adjustment)) :
    parseChars text = ofParts modifier name adjustment := by
  simp only [parseChars, hplaceholder, h]
  rfl

/-- **Legible parts are read back** from their written form. -/
theorem Legible.parseChars_written (h : Legible modifier name adjustment) :
    parseChars (written modifier name adjustment) = ofParts modifier name adjustment := by
  refine parseChars_of_split?_some (not_isPlaceholder_of_split? h.split?_eq) ?_
  rw [h.clean_written.clean_eq, h.split?_eq]

/-- **Reading the written form.** The written form of a type that was read from a text is read as the
same type, unless cleaning puts a placeholder together that the text did not hold. Then the cleaned
text with the placeholder is the name of the first type, and the second type is unknown.

**Proof sketch.** A text with a placeholder is the unknown type, whose written form is read as unknown.
Otherwise the cleaned text is cut, and its parts are written and cut again at the same places; or it is the
name as a whole, and then its written form is the cleaned text, which cleaning leaves as it is. It is read
differently only if it is a placeholder now. -/
theorem parse_render_parse (s : String) :
    (parse (parse s).render = parse s ↔
      isPlaceholder s.toList = true ∨ isPlaceholder (clean s.toList) = false) ∧
    (isPlaceholder s.toList = false → isPlaceholder (clean s.toList) = true →
      parse s = { name := String.ofList (clean s.toList) } ∧ (parse s).isUnknown = false ∧
        parse (parse s).render = unknown) := by
  have hname : (ofParts [] (clean s.toList) []).render.toList = clean s.toList := by
    rw [toList_render_ofParts, written, if_pos rfl, List.nil_append, List.append_nil]
  cases hplaceholder : isPlaceholder s.toList with
  | true =>
    have hunknown : parse s = unknown := by
      rw [parse, parseChars, if_pos hplaceholder]
    refine ⟨⟨fun _ => Or.inl rfl, fun _ => ?_⟩, fun h => Bool.noConfusion h⟩
    rw [hunknown]
    decide +kernel
  | false =>
    cases hsplit : split? (clean s.toList) with
    | some parts =>
      obtain ⟨m, n, a⟩ := parts
      have hlegible := legible_of_split? (clean_clean s.toList) hsplit
      have hnot := not_isPlaceholder_of_split? hsplit
      have hparse : parse s = ofParts m n a := parseChars_of_split?_some hplaceholder hsplit
      refine ⟨⟨fun _ => Or.inr hnot, fun _ => ?_⟩, fun _ h => absurd h (by simp [hnot])⟩
      rw [hparse, parse, toList_render_ofParts]
      exact hlegible.parseChars_written
    | none =>
      have hparse : parse s = ofParts [] (clean s.toList) [] :=
        parseChars_of_split?_none hplaceholder hsplit
      have hagain : parse (parse s).render = parseChars (clean s.toList) := by
        rw [hparse, parse, hname]
      cases hcleaned : isPlaceholder (clean s.toList) with
      | false =>
        refine ⟨⟨fun _ => Or.inr rfl, fun _ => ?_⟩, fun _ h => Bool.noConfusion h⟩
        have hclean := (clean_clean s.toList).clean_eq
        rw [hagain, hparse, parseChars_of_split?_none hcleaned (by rw [hclean, hsplit]), hclean]
      | true =>
        have hunknown : parse (parse s).render = unknown := by
          rw [hagain, parseChars, if_pos hcleaned]
        -- the name of the unknown type has no placeholder in it
        have hknown : (parse s).isUnknown = false := by
          rw [hparse, isUnknown, beq_eq_false_iff_ne]
          intro heq
          have hchars : clean s.toList = unknownName.toList := by
            rw [← heq, ofParts, String.toList_ofList]
          rw [hchars] at hcleaned
          exact absurd hcleaned (by decide)
        refine ⟨⟨fun heq => ?_, fun h => by simp at h⟩, fun _ _ => ⟨hparse, hknown, hunknown⟩⟩
        rw [← heq, hunknown] at hknown
        exact absurd hknown (by decide)

/-- A type whose name was put together by cleaning becomes unknown when its written form is read. -/
theorem parse_render_parse_joined :
    parse "Problem(x)Type@1" = { name := "ProblemType@1" } ∧
      parse (parse "Problem(x)Type@1").render ≠ parse "Problem(x)Type@1" := by
  decide +kernel

end ProgramGraph.Descriptor
