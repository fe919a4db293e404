import Mathlib.Data.List.Infix
import ProgramGraph.Type.Cleaning

set_option autoImplicit false

/-!
# Cleaning comes to rest

Each step of a pass either leaves a text as it is or makes it shorter. So passes come to rest, and a
text on which they rest is left alone by every single step.

## Main definitions

* `ProgramGraph.Cleaning.Shortens` — a step that changes no text without making it shorter.
* `ProgramGraph.Cleaning.Clean` — a text that no step changes.

## Main results

* `ProgramGraph.Cleaning.shortens_pass_and_clean_of_pass_eq` — passes make texts shorter, and what a pass
  leaves alone its steps leave alone.
* `ProgramGraph.Cleaning.clean_clean` — a cleaned text has nothing left to clean.
-/

namespace ProgramGraph

namespace Cleaning

open ProgramGraph.Text (isBlank split trim trimStart trimEnd)

variable {f f' : List Char → List Char} {text : List Char}

/-! ## Steps that make texts shorter -/

/-- A step that leaves every text as it is or makes it shorter. -/
def Shortens (f : List Char → List Char) : Prop :=
  ∀ text, f text = text ∨ (f text).length < text.length

/-- A step that shortens texts makes none longer. -/
theorem Shortens.length_le (h : Shortens f) (text : List Char) : (f text).length ≤ text.length :=
  (h text).elim (fun heq => (congrArg List.length heq).le) Nat.le_of_lt

/-- Taking characters away makes a text shorter. -/
theorem shortens_of_sublist (h : ∀ text, (f text).Sublist text) : Shortens f := by
  intro text
  rcases Nat.lt_or_eq_of_le (h text).length_le with hlt | heq
  · exact Or.inr hlt
  · exact Or.inl ((h text).eq_of_length heq)

/-- Steps that make texts shorter, one after the other. -/
theorem Shortens.comp (h : Shortens f) (h' : Shortens f') : Shortens fun text => f (f' text) := by
  intro text
  rcases h' text with heq | hlt
  · simp only [heq]
    exact h text
  · exact Or.inr ((h.length_le _).trans_lt hlt)

/-- **Nothing comes back.** What two such steps leave as it is, each of them leaves as it is. -/
theorem Shortens.fixed (h : Shortens f) (h' : Shortens f') (hfixed : f (f' text) = text) :
    f' text = text ∧ f text = text := by
  rcases h' text with heq | hlt
  · exact ⟨heq, by rwa [heq] at hfixed⟩
  · have hle := (h.length_le (f' text)).trans_lt hlt
    rw [hfixed] at hle
    exact absurd hle (Nat.lt_irrefl _)

/-! ## Trimming -/

/-- Cutting off leading blanks leaves a part of the text. -/
theorem trimStart_sublist (text : List Char) : (trimStart text).Sublist text :=
  List.dropWhile_sublist _

/-- Cutting off trailing blanks leaves a part of the text. -/
theorem trimEnd_sublist (text : List Char) : (trimEnd text).Sublist text := by
  have h := (List.dropWhile_sublist isBlank (l := text.reverse)).reverse
  rwa [List.reverse_reverse] at h

/-- A text starts with no blank just in case there is none to take away there. -/
theorem dropWhile_eq_self_iff {p : Char → Bool} :
    text.dropWhile p = text ↔ ∀ c, text.head? = some c → p c = false := by
  refine ⟨fun h c hc => ?_, fun h => ?_⟩
  · have hnot := List.head?_dropWhile_not p text
    rw [h, hc] at hnot
    exact hnot
  · cases text with
    | nil => rfl
    | cons c rest => rw [List.dropWhile_cons_of_neg (by simp [h c rfl])]

/-- **Trimmed texts** are those that neither start nor end with a blank. -/
theorem trim_eq_self_iff : trim text = text ↔
    (∀ c, text.head? = some c → isBlank c = false) ∧
      ∀ c, text.getLast? = some c → isBlank c = false := by
  have hstart : trimStart text = text ↔ ∀ c, text.head? = some c → isBlank c = false :=
    dropWhile_eq_self_iff
  have hend : trimEnd text = text ↔ ∀ c, text.getLast? = some c → isBlank c = false := by
    rw [trimEnd, List.reverse_eq_iff, dropWhile_eq_self_iff, List.head?_reverse]
  rw [← hstart, ← hend]
  refine ⟨fun h => ?_, fun ⟨hs, he⟩ => by rw [trim, hs, he]⟩
  exact (shortens_of_sublist trimEnd_sublist).fixed (shortens_of_sublist trimStart_sublist) h

/-! ## The steps -/

/-- Erasing the leading word leaves a part of the text. -/
theorem eraseStruct_sublist (text : List Char) : (eraseStruct text).Sublist text := by
  unfold eraseStruct
  split
  · exact List.drop_sublist _ _
  · exact List.Sublist.refl _

/-- The word that marks a structure, with its blank. -/
theorem structWord_eq : structWord = "struct".toList ++ [' '] := by
  decide +kernel

/-- Where the word that marks a structure leads, it is taken away. -/
theorem not_isPrefix_of_eraseStruct_eq (h : eraseStruct text = text) : ¬ structWord <+: text := by
  intro hprefix
  have hlength := congrArg List.length h
  have hword : 0 < structWord.length := by
    rw [structWord_eq, List.length_append]
    exact Nat.lt_add_left _ (Nat.lt_succ_self 0)
  rw [eraseStruct, if_pos (List.isPrefixOf_iff_prefix.mpr hprefix), List.length_drop] at hlength
  have := hprefix.length_le
  omega

/-- What comes behind the last closing mark is a part of the line. -/
theorem afterLast?_sublist {closing line tail : List Char} (h : afterLast? closing line = some tail) :
    tail.Sublist line := by
  induction line with
  | nil => cases h
  | cons c rest ih =>
    simp only [afterLast?] at h
    cases hrest : afterLast? closing rest with
    | some tail' =>
      rw [hrest] at h ih
      exact .cons c (ih h)
    | none =>
      rw [hrest] at h
      simp only at h
      split at h
      · obtain rfl := Option.some.inj h
        exact List.drop_sublist _ _
      · cases h

/-- Erasing a span leaves a part of the line. -/
theorem eraseSpan_sublist (opening : Char) (closing line : List Char) :
    (eraseSpan opening closing line).Sublist line := by
  induction line with
  | nil => exact List.Sublist.refl _
  | cons c rest ih =>
    simp only [eraseSpan]
    split
    · cases h : afterLast? closing rest with
      | none => exact List.Sublist.refl _
      | some tail => exact .cons c (afterLast?_sublist h)
    · exact ih.cons_cons c

/-- If a part of each piece is left, a part of the whole text is left. -/
theorem intercalate_sublist (sep : List Char) (h : ∀ piece, (f piece).Sublist piece)
    (pieces : List (List Char)) : (sep.intercalate (pieces.map f)).Sublist (sep.intercalate pieces) := by
  induction pieces with
  | nil => exact List.Sublist.refl _
  | cons piece more ih =>
    cases more with
    | nil => simpa using h piece
    | cons next more =>
      simp only [List.map_cons, List.intercalate_cons_cons] at ih ⊢
      exact ((h piece).append (List.Sublist.refl _)).append ih

/-- Erasing spans leaves a part of the text. -/
theorem eraseSpans_sublist (opening : Char) (closing text : List Char) :
    (eraseSpans opening closing text).Sublist text := by
  have h := intercalate_sublist ['\n'] (eraseSpan_sublist opening closing) (split '\n' text)
  rwa [Text.intercalate_split] at h

/-- Dropping a size leaves a part of the text. -/
theorem dropSize_sublist (text : List Char) : (dropSize text).Sublist text := by
  unfold dropSize
  split
  · next rest h =>
    rw [← h]
    exact List.dropWhile_sublist _
  · exact List.Sublist.refl _

/-- A size is taken away. -/
theorem dropSize_append {middle : List Char} (back : List Char) (hmiddle : ∀ c ∈ middle, isSizeChar c = true) :
    dropSize (middle ++ ']' :: back) = ']' :: back := by
  have hdrop : (middle ++ ']' :: back).dropWhile isSizeChar = ']' :: back := by
    rw [List.dropWhile_append_of_pos hmiddle, List.dropWhile_cons_of_neg (by decide +kernel)]
  simp only [dropSize, hdrop]

/-- Erasing sizes leaves a part of the text. -/
theorem eraseSizes_sublist (text : List Char) : (eraseSizes text).Sublist text := by
  induction text with
  | nil => exact List.Sublist.refl _
  | cons c rest ih =>
    simp only [eraseSizes]
    split
    · exact ((dropSize_sublist _).trans ih).cons_cons c
    · exact ih.cons_cons c

/-- Writing a dot for two colons shortens texts. -/
theorem shortens_dotted : Shortens dotted := by
  intro text
  fun_induction dotted text with
  | case1 => exact Or.inl rfl
  | case2 rest ih =>
    have hle : (dotted rest).length ≤ rest.length :=
      ih.elim (fun heq => (congrArg List.length heq).le) Nat.le_of_lt
    exact Or.inr (by simp only [List.length_cons]; omega)
  | case3 c rest _ ih =>
    refine ih.imp (fun heq => by rw [heq]) fun hlt => ?_
    simpa only [List.length_cons, Nat.add_lt_add_iff_right] using hlt

/-! ## Texts without artifacts -/

/-- Where no span is opened, none is erased. -/
theorem eraseSpan_of_notMem {opening : Char} {line : List Char} (h : opening ∉ line) (closing : List Char) :
    eraseSpan opening closing line = line := by
  induction line with
  | nil => rfl
  | cons c rest ih =>
    rw [List.mem_cons, not_or] at h
    obtain ⟨hc, hrest⟩ := h
    rw [eraseSpan, if_neg fun heq => hc heq.symm, ih hrest]

/-- The pieces of a text hold characters of the text. -/
theorem subset_of_mem_split {sep : Char} {piece : List Char} (h : piece ∈ split sep text) :
    piece ⊆ text := by
  induction text generalizing piece with
  | nil =>
    obtain rfl := List.mem_singleton.mp h
    exact List.Subset.refl _
  | cons c rest ih =>
    rw [split] at h
    split at h
    · rcases List.mem_cons.mp h with rfl | h
      · exact List.nil_subset _
      · exact List.subset_cons_of_subset c (ih h)
    · split at h
      · obtain rfl := List.mem_singleton.mp h
        exact List.cons_subset_cons c (List.nil_subset _)
      · next first more hsplit =>
        rw [hsplit] at ih
        rcases List.mem_cons.mp h with rfl | h
        · exact List.cons_subset_cons c (ih List.mem_cons_self)
        · exact List.subset_cons_of_subset c (ih (List.mem_cons_of_mem _ h))

/-- Without an opening there is no span. -/
theorem eraseSpans_of_notMem {opening : Char} (h : opening ∉ text) (closing : List Char) :
    eraseSpans opening closing text = text := by
  have hmap : (split '\n' text).map (eraseSpan opening closing) = (split '\n' text).map id :=
    List.map_congr_left fun piece hpiece =>
      eraseSpan_of_notMem (fun hmem => h (subset_of_mem_split hpiece hmem)) closing
  rw [eraseSpans, hmap, List.map_id, Text.intercalate_split]

/-- Without colons there are no double ones. -/
theorem dotted_of_notMem (h : ':' ∉ text) : dotted text = text := by
  fun_induction dotted text with
  | case1 => rfl
  | case2 rest ih => exact absurd List.mem_cons_self h
  | case3 c rest _ ih => rw [ih fun hmem => h (List.mem_cons_of_mem c hmem)]

/-- In front of the first bracket there is no size. -/
theorem eraseSizes_append_of_notMem {front : List Char} (h : '[' ∉ front) (back : List Char) :
    eraseSizes (front ++ back) = front ++ eraseSizes back := by
  induction front with
  | nil => rfl
  | cons c rest ih =>
    rw [List.mem_cons, not_or] at h
    obtain ⟨hc, hrest⟩ := h
    rw [List.cons_append, eraseSizes, if_neg fun heq => hc heq.symm, ih hrest, List.cons_append]

/-- Without the characters of a size there is no size. -/
theorem eraseSizes_of_forall (h : ∀ c ∈ text, isSizeChar c = false) : eraseSizes text = text := by
  induction text with
  | nil => rfl
  | cons c rest ih =>
    have hrest := fun c hc => h c (List.mem_cons_of_mem _ hc)
    have hdrop : rest.dropWhile isSizeChar = rest :=
      dropWhile_eq_self_iff.mpr fun c hc => hrest c (List.mem_of_head? hc)
    have hsize : dropSize rest = rest := by
      unfold dropSize
      rw [hdrop]
      split <;> rfl
    rw [eraseSizes, ih hrest, hsize, ite_self]

/-! ## Passes -/

/-- What no step of a pass changes. -/
structure Clean (text : List Char) : Prop where
  struct : eraseStruct text = text
  namespaces : eraseSpans '{' ['}', ':', ':'] text = text
  sizes : eraseSizes text = text
  arguments : eraseSpans '(' [')'] text = text
  dots : dotted text = text
  ends : trim text = text

/-- A pass that changes a text makes it shorter, and a text that a pass leaves as it is is left as it
is by every step. -/
theorem shortens_pass_and_clean_of_pass_eq :
    Shortens pass ∧ ∀ text, pass text = text → Clean text := by
  have hstruct := shortens_of_sublist eraseStruct_sublist
  have hnamespaces := shortens_of_sublist (eraseSpans_sublist '{' ['}', ':', ':'])
  have hsizes := shortens_of_sublist eraseSizes_sublist
  have harguments := shortens_of_sublist (eraseSpans_sublist '(' [')'])
  have hends : Shortens trim :=
    (shortens_of_sublist trimEnd_sublist).comp (shortens_of_sublist trimStart_sublist)
  have h₁ := hnamespaces.comp hstruct
  have h₂ := hsizes.comp h₁
  have h₃ := harguments.comp h₂
  have h₄ := shortens_dotted.comp h₃
  refine ⟨hends.comp h₄, fun text h => ?_⟩
  obtain ⟨e₄, he⟩ := hends.fixed h₄ h
  obtain ⟨e₃, hd⟩ := shortens_dotted.fixed h₃ e₄
  obtain ⟨e₂, ha⟩ := harguments.fixed h₂ e₃
  obtain ⟨e₁, hz⟩ := hsizes.fixed h₁ e₂
  obtain ⟨hs, hn⟩ := hnamespaces.fixed hstruct e₁
  exact ⟨hs, hn, hz, ha, hd, he⟩

/-- A clean text is left as it is by a pass. -/
theorem Clean.pass_eq (h : Clean text) : pass text = text := by
  rw [pass, h.struct, h.namespaces, h.sizes, h.arguments, h.dots, h.ends]

/-- Settling rests on a text that passes leave as it is. -/
theorem pass_settle {n : Nat} (h : text.length ≤ n) : pass (settle n text) = settle n text := by
  induction n generalizing text with
  | zero =>
    obtain rfl := List.eq_nil_of_length_eq_zero (Nat.le_zero.mp h)
    rfl
  | succ n ih =>
    simp only [settle]
    split
    · next heq => exact heq
    · next hne =>
      have hlt := (shortens_pass_and_clean_of_pass_eq.1 text).resolve_left hne
      exact ih (by omega)

/-- **A cleaned text is clean.** -/
theorem clean_clean (text : List Char) : Clean (clean text) :=
  shortens_pass_and_clean_of_pass_eq.2 _
    (pass_settle (shortens_pass_and_clean_of_pass_eq.1.length_le text))

/-- **A clean text stays as it is.** -/
theorem Clean.clean_eq (h : Clean text) : clean text = text := by
  unfold clean
  rw [h.pass_eq]
  cases text.length with
  | zero => rfl
  | succ n => rw [settle, if_pos h.pass_eq]

end Cleaning

end ProgramGraph
