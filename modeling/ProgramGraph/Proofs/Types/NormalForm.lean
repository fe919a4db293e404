import Mathlib.Logic.Function.Iterate
import ProgramGraph.Proofs.Types.Rendering

set_option autoImplicit false

/-!
# The normal form of type text

Passes come to rest after no more rounds than the text has characters, and the text on which they rest
is in normal form: none of the artifacts is left in it, wherever they might stand. A type is read off
the normal form: either its parts are written in their own characters, or the whole of it is the name.

## Main definitions

* `ProgramGraph.Cleaning.Normal` — a text in which no artifact is left.

## Main results

* `ProgramGraph.Cleaning.exists_rounds` — the rounds that cleaning takes.
* `ProgramGraph.Cleaning.Clean.normal` — what no step changes is in normal form.
* `ProgramGraph.Descriptor.parse_cleaned` — the normal form of a text, and the type read off it.

## Design

Each step takes away what it finds in one way: the widest span of a line, the sizes from the right. That
it leaves a text as it is says more: no span is in any line, and no size anywhere. This is shown by
contraposition, step by step: a text with an artifact in it gets shorter.
-/

namespace ProgramGraph

/-! ## Pieces of a text -/

namespace Text

variable {sep : Char} {word text : List Char}

/-- What a text begins with, its first piece begins with, as long as there is no separator in it. -/
theorem exists_prefix_split (hsep : sep ∉ word) (h : word <+: text) :
    ∃ piece more, split sep text = piece :: more ∧ word <+: piece := by
  induction word generalizing text with
  | nil =>
    obtain ⟨piece, more, hsplit⟩ := List.exists_cons_of_ne_nil (split_ne_nil sep text)
    exact ⟨piece, more, hsplit, List.nil_prefix⟩
  | cons c word ih =>
    obtain ⟨rest, rfl⟩ := h
    rw [List.mem_cons, not_or] at hsep
    obtain ⟨piece, more, hsplit, hprefix⟩ := ih hsep.2 (List.prefix_append word rest)
    refine ⟨c :: piece, more, ?_, (List.prefix_cons_inj c).mpr hprefix⟩
    rw [List.cons_append, split, if_neg (Ne.symm hsep.1), hsplit]

/-- **What stands in a text** without a separator in it, stands in one of its pieces. -/
theorem exists_mem_split_of_infix (hsep : sep ∉ word) (h : word <:+: text) :
    ∃ piece ∈ split sep text, word <:+: piece := by
  induction text with
  | nil => exact ⟨[], List.mem_singleton_self _, h⟩
  | cons c rest ih =>
    rcases List.infix_cons_iff.mp h with hprefix | hrest
    · obtain ⟨piece, more, hsplit, hword⟩ := exists_prefix_split hsep hprefix
      exact ⟨piece, hsplit ▸ List.mem_cons_self, hword.isInfix⟩
    · -- the pieces of the rest are pieces of the text, but for the first one, which may get longer
      obtain ⟨piece, hpiece, hword⟩ := ih hrest
      rw [split]
      split
      · exact ⟨piece, List.mem_cons_of_mem _ hpiece, hword⟩
      · split
        · next hnone => exact absurd hnone (split_ne_nil sep rest)
        · next first more hsplit =>
          rw [hsplit] at hpiece
          rcases List.mem_cons.mp hpiece with rfl | hmore
          · exact ⟨c :: piece, List.mem_cons_self, List.infix_cons hword⟩
          · exact ⟨piece, List.mem_cons_of_mem _ hmore, hword⟩

end Text

namespace Cleaning

open ProgramGraph.Text (isBlank split)

variable {f : List Char → List Char} {text line front middle back closing : List Char} {opening : Char}

/-! ## The rounds of cleaning -/

/-- Settling takes passes for as long as they change the text. -/
theorem exists_rounds_settle {limit : Nat} (h : text.length ≤ limit) :
    ∃ n ≤ limit, settle limit text = pass^[n] text ∧
      ∀ i < n, pass (pass^[i] text) ≠ pass^[i] text := by
  induction limit generalizing text with
  | zero => exact ⟨0, Nat.le_refl _, rfl, fun i hi => absurd hi (Nat.not_lt_zero i)⟩
  | succ limit ih =>
    simp only [settle]
    split
    · exact ⟨0, Nat.zero_le _, rfl, fun i hi => absurd hi (Nat.not_lt_zero i)⟩
    · next hne =>
      have hlt := (shortens_pass_and_clean_of_pass_eq.1 text).resolve_left hne
      have hle : (pass text).length ≤ limit := by omega
      obtain ⟨n, hn, hsettle, hchanges⟩ := ih hle
      refine ⟨n + 1, Nat.succ_le_succ hn, by rw [hsettle, Function.iterate_succ_apply], fun i hi => ?_⟩
      cases i with
      | zero => exact hne
      | succ i =>
        rw [Function.iterate_succ_apply]
        exact hchanges i (Nat.lt_of_succ_lt_succ hi)

/-- **Cleaning ends.** After the first pass come as many as change the text, which are no more than it
has characters, and the next one would change nothing. -/
theorem exists_rounds (text : List Char) :
    ∃ n ≤ text.length, clean text = pass^[n] (pass text) ∧
      ∀ i < n, pass (pass^[i] (pass text)) ≠ pass^[i] (pass text) :=
  exists_rounds_settle (shortens_pass_and_clean_of_pass_eq.1.length_le text)

/-! ## Spans -/

/-- A closing that stands in a line has a last occurrence there. -/
theorem isSome_afterLast? (hne : closing ≠ []) (h : closing <:+: line) :
    (afterLast? closing line).isSome := by
  induction line with
  | nil => exact absurd (List.infix_nil.mp h) hne
  | cons c rest ih =>
    simp only [afterLast?]
    cases hrest : afterLast? closing rest with
    | some tail => rfl
    | none =>
      rcases List.infix_cons_iff.mp h with hprefix | hinfix
      · rw [if_pos (List.isPrefixOf_iff_prefix.mpr hprefix)]
        rfl
      · rw [hrest] at ih
        exact absurd (ih hinfix) (by simp)

/-- Behind an opening, a closing takes text away. -/
theorem length_afterLast?_lt (c : Char) (hne : closing ≠ []) (h : closing <:+: line) :
    ((afterLast? closing line).getD (c :: line)).length < (c :: line).length := by
  obtain ⟨tail, htail⟩ := Option.isSome_iff_exists.mp (isSome_afterLast? hne h)
  rw [htail, Option.getD_some, List.length_cons]
  exact Nat.lt_succ_of_le (afterLast?_sublist htail).length_le

/-- **A line with a span** gets shorter. -/
theorem length_eraseSpan_lt (front : List Char) (hne : closing ≠ []) (h : closing <:+: back) :
    (eraseSpan opening closing (front ++ opening :: back)).length
      < (front ++ opening :: back).length := by
  induction front with
  | nil =>
    rw [List.nil_append, eraseSpan, if_pos rfl]
    exact length_afterLast?_lt opening hne h
  | cons c front ih =>
    rw [List.cons_append, eraseSpan]
    split
    · -- an earlier opening, from which the span begins
      refine length_afterLast?_lt c hne (h.trans ?_)
      exact ((List.suffix_cons opening back).trans (List.suffix_append front _)).isInfix
    · simpa only [List.length_cons, Nat.add_lt_add_iff_right] using ih

/-- Where nothing is taken away from a text, nothing is taken away from its pieces. -/
theorem eq_of_intercalate_map_eq {sep : List Char} (h : ∀ piece, (f piece).Sublist piece)
    {pieces : List (List Char)} (heq : sep.intercalate (pieces.map f) = sep.intercalate pieces) :
    ∀ piece ∈ pieces, f piece = piece := by
  induction pieces with
  | nil => exact fun piece hpiece => absurd hpiece List.not_mem_nil
  | cons piece more ih =>
    cases more with
    | nil =>
      rw [List.forall_mem_singleton]
      simpa using heq
    | cons next more =>
      have hpiece := h piece
      have hmore := intercalate_sublist sep h (next :: more)
      simp only [List.map_cons, List.intercalate_cons_cons] at heq ih hmore
      have hlength := congrArg List.length heq
      simp only [List.length_append] at hlength
      have hle := hpiece.length_le
      have hle' := hmore.length_le
      rw [List.forall_mem_cons]
      exact ⟨hpiece.eq_of_length (by omega), ih (hmore.eq_of_length (by omega))⟩

/-- **A text without spans** has no opening with a closing behind it in the same line. -/
theorem mem_of_eraseSpans_eq (h : eraseSpans opening closing text = text) (hopening : opening ≠ '\n')
    (hne : closing ≠ []) (hclosing : '\n' ∉ closing)
    (htext : text = front ++ opening :: (middle ++ (closing ++ back))) : '\n' ∈ middle := by
  by_contra hmiddle
  -- the span lies within one piece of the text, which would get shorter
  have hword : '\n' ∉ opening :: (middle ++ closing) := by
    rw [List.mem_cons, List.mem_append, not_or, not_or]
    exact ⟨hopening.symm, hmiddle, hclosing⟩
  have hinfix : opening :: (middle ++ closing) <:+: text :=
    ⟨front, back, by rw [htext]; simp⟩
  obtain ⟨piece, hpiece, before, after, rfl⟩ := Text.exists_mem_split_of_infix hword hinfix
  have hspan : (eraseSpan opening closing (before ++ opening :: (middle ++ closing ++ after))).length
      < (before ++ opening :: (middle ++ closing ++ after)).length :=
    length_eraseSpan_lt before hne ⟨middle, after, rfl⟩
  have hsame := eq_of_intercalate_map_eq (eraseSpan_sublist opening closing)
    (h.trans (Text.intercalate_split '\n' text).symm) _ hpiece
  rw [List.append_assoc, List.cons_append] at hsame
  rw [hsame] at hspan
  exact Nat.lt_irrefl _ hspan

/-! ## Sizes and colons -/

/-- **A text without sizes** has no bracket pair with a size in it.

**Proof sketch.** By induction on the text in front of the bracket. What is erased of a text that stays as it
is, is nothing. So behind the bracket the size has the same length as nothing at all. -/
theorem eq_nil_of_eraseSizes_eq (h : eraseSizes text = text)
    (htext : text = front ++ '[' :: (middle ++ ']' :: back))
    (hmiddle : ∀ c ∈ middle, isSizeChar c = true) : middle = [] := by
  have hsizes := shortens_of_sublist eraseSizes_sublist
  have hdrop := shortens_of_sublist dropSize_sublist
  induction front generalizing text with
  | nil =>
    -- behind the bracket no size was taken away, neither directly nor further on
    subst htext
    rw [List.nil_append, eraseSizes, if_pos rfl, List.cons.injEq] at h
    obtain ⟨-, hkept⟩ := hdrop.fixed hsizes h.2
    rw [dropSize_append _ hmiddle] at hkept
    have hlength := congrArg List.length hkept
    rw [List.length_append] at hlength
    exact List.eq_nil_of_length_eq_zero (by omega)
  | cons c front ih =>
    subst htext
    rw [List.cons_append, eraseSizes] at h
    refine ih ?_ rfl
    split at h
    · rw [List.cons.injEq] at h
      exact (hdrop.fixed hsizes h.2).1
    · rw [List.cons.injEq] at h
      exact h.2

/-- **A text in which no colons are replaced** has no two of them in a row. -/
theorem not_infix_of_dotted_eq (h : dotted text = text) : ¬ [':', ':'] <:+: text := by
  fun_induction dotted text with
  | case1 => exact fun hinfix => absurd (List.infix_nil.mp hinfix) (by simp)
  | case2 rest => exact absurd (List.cons.inj h).1 (by decide)
  | case3 c rest hnot ih =>
    rw [List.infix_cons_iff, not_or]
    refine ⟨?_, ih (List.cons.inj h).2⟩
    rintro ⟨more, hmore⟩
    obtain ⟨rfl, rfl⟩ := List.cons.inj hmore
    exact hnot more rfl rfl

/-! ## The normal form -/

/-- A text in which no artifact is left. -/
structure Normal (text : List Char) : Prop where
  /-- A pass leaves it as it is. -/
  rests : pass text = text
  /-- It does not start with a blank. -/
  start : ∀ c, text.head? = some c → isBlank c = false
  /-- It does not end with a blank. -/
  finish : ∀ c, text.getLast? = some c → isBlank c = false
  /-- The word that marks a structure does not lead. -/
  noStruct : ¬ structWord <+: text
  /-- There are no two colons in a row. -/
  noColons : ¬ [':', ':'] <:+: text
  /-- Between an opening and a closing parenthesis there is the end of a line. -/
  noArguments : ∀ front middle back, text = front ++ '(' :: (middle ++ ')' :: back) → '\n' ∈ middle
  /-- Between brackets there is nothing, or more than blanks and digits. -/
  noSizes : ∀ front middle back, text = front ++ '[' :: (middle ++ ']' :: back) →
    (∀ c ∈ middle, isSizeChar c = true) → middle = []

/-- **What no step changes** is in normal form. -/
theorem Clean.normal (h : Clean text) : Normal text where
  rests := h.pass_eq
  start := (trim_eq_self_iff.mp h.ends).1
  finish := (trim_eq_self_iff.mp h.ends).2
  noStruct := not_isPrefix_of_eraseStruct_eq h.struct
  noColons := not_infix_of_dotted_eq h.dots
  noArguments _ _ _ htext :=
    mem_of_eraseSpans_eq h.arguments (by decide) (by simp) (by decide) htext
  noSizes _ _ _ htext hmiddle := eq_nil_of_eraseSizes_eq h.sizes htext hmiddle

end Cleaning

/-! ## The type in normal form -/

namespace Descriptor

open ProgramGraph.Text (isBlank)
open ProgramGraph.Cleaning (Normal pass clean clean_clean exists_rounds)

variable {modifier name adjustment text : List Char}

/-- Blanks apart, a name is kept as it is. -/
theorem filter_of_splitName? (h : splitName? text = some (name, adjustment)) :
    (text.filter fun c => !isBlank c) = name ++ adjustment := by
  obtain ⟨back, hname, -, rfl, rfl⟩ := splitName?_eq_some_iff.mp h
  rw [List.filter_append, List.filter_eq_self.mpr]
  intro c hc
  simp [isBlank_of_isNameChar (hname c hc)]

/-- **Blanks apart, the parts are the text.** -/
theorem filter_of_split? (h : split? text = some (modifier, name, adjustment)) :
    (text.filter fun c => !isBlank c) = modifier ++ (name ++ adjustment) := by
  rcases split?_eq_some h with ⟨rest, hmodifier, hname⟩ | ⟨rfl, -, hname⟩
  · obtain ⟨hletters, rfl⟩ := splitModifier?_eq_some_iff.mp hmodifier
    have hkept : (modifier.filter fun c => !isBlank c) = modifier := by
      rw [List.filter_eq_self]
      intro c hc
      simp [isBlank_of_isNameChar (isNameChar_of_isLetter (hletters c hc))]
    rw [List.filter_append, hkept, List.filter_cons_of_neg (by decide), filter_of_splitName? hname]
  · rw [List.nil_append]
    exact filter_of_splitName? hname

/-- **The normal form of a text, and the type read off it.** For every text the passes of cleaning end,
on a text in normal form. A text that holds a placeholder is the unknown type. Of any other text, either
the parts of the type are written in their own characters, and together they are all of the cleaned text
but its blanks, or the whole cleaned text is the name.

**Proof sketch.** A pass that changes a text makes it shorter, which bounds the passes. What a pass leaves as
it is has none of the artifacts that a pass takes away. Cutting is deterministic: each part is the longest run
of its own characters, and blanks are all that is skipped between them. -/
theorem parse_cleaned (raw : String) :
    (∃ n ≤ raw.toList.length, clean raw.toList = pass^[n] (pass raw.toList) ∧
      ∀ i < n, pass (pass^[i] (pass raw.toList)) ≠ pass^[i] (pass raw.toList)) ∧
    Normal (clean raw.toList) ∧
    (isPlaceholder raw.toList = true ∧ parse raw = unknown ∨
      isPlaceholder raw.toList = false ∧
        (Legible (parse raw).modifier.toList (parse raw).name.toList (parse raw).adjustment.toList ∧
            ((clean raw.toList).filter fun c => !isBlank c)
              = (parse raw).modifier.toList ++ ((parse raw).name.toList ++ (parse raw).adjustment.toList) ∨
          parse raw = { name := String.ofList (clean raw.toList) })) := by
  refine ⟨exists_rounds _, (clean_clean _).normal, ?_⟩
  cases hplaceholder : isPlaceholder raw.toList with
  | true => exact Or.inl ⟨rfl, by rw [parse, parseChars, if_pos hplaceholder]⟩
  | false =>
    refine Or.inr ⟨rfl, ?_⟩
    cases hsplit : split? (clean raw.toList) with
    | none => exact Or.inr (parseChars_of_split?_none hplaceholder hsplit)
    | some parts =>
      obtain ⟨m, n, a⟩ := parts
      have hparse : parse raw = ofParts m n a := parseChars_of_split?_some hplaceholder hsplit
      rw [hparse]
      simp only [ofParts, String.toList_ofList]
      exact Or.inl ⟨legible_of_split? (clean_clean _) hsplit, filter_of_split? hsplit⟩

/-- The size is seen only after the argument list in it is gone. -/
example : parse "int[(1) 2]" = { name := "int", adjustment := "[]" } := by decide +kernel

end Descriptor

end ProgramGraph
