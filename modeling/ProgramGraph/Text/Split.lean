set_option autoImplicit false

/-!
# Splitting texts

A text falls into pieces at every occurrence of a character. There is always one piece more than
occurrences, so joining the pieces again gives back the text.

## Main definitions

* `ProgramGraph.Text.split` — the pieces of a text.
* `ProgramGraph.Text.lines` — the lines of a text.

## Main results

* `ProgramGraph.Text.intercalate_split` — joining the pieces gives back the text.
-/

namespace ProgramGraph.Text

/-- The pieces of a text between the occurrences of a character. -/
def split (sep : Char) : List Char → List (List Char)
  | [] => [[]]
  | c :: rest =>
    if c = sep then [] :: split sep rest
    else match split sep rest with
      | [] => [[c]]
      | piece :: more => (c :: piece) :: more

/-- There is always a piece. -/
theorem split_ne_nil (sep : Char) (text : List Char) : split sep text ≠ [] := by
  cases text with
  | nil => simp [split]
  | cons c rest =>
    simp only [split]
    split
    · simp
    · split <;> simp

/-- Joining the pieces of a text gives back the text. -/
theorem intercalate_split (sep : Char) (text : List Char) :
    [sep].intercalate (split sep text) = text := by
  induction text with
  | nil => rfl
  | cons c rest ih =>
    simp only [split]
    have hne := split_ne_nil sep rest
    cases hs : split sep rest with
    | nil => exact absurd hs hne
    | cons piece more =>
      rw [hs] at ih
      by_cases h : c = sep
      · subst h
        simp [List.intercalate] at ih ⊢
        exact ih
      · simp only [h, if_false]
        cases more with
        | nil => simp [List.intercalate] at ih ⊢; exact ih
        | cons next more => simp [List.intercalate, List.intersperse] at ih ⊢; exact ih

/-- The lines of a text. A line end at the very end is followed by an empty line. -/
def lines (text : String) : List String := (split '\n' text.toList).map String.ofList

end ProgramGraph.Text
