import ProgramGraph.Proofs.Reading.Incremental
import ProgramGraph.Proofs.Types.Rendering
import ProgramGraph.Type.Encode

set_option autoImplicit false

/-!
# Well-formed types

A type is well formed if its parts are written in the characters of such parts. The written form of a
well-formed type is read as the same type, and levels of indirection can be added to it and taken away
from it in any order: it stays well formed. So on the way it may be written as JSON and read again as
often as one likes.

## Main definitions

* `ProgramGraph.Descriptor.WellFormed` — each part is written in its own characters.
* `ProgramGraph.Descriptor.Step` — a level more, a level less, or a transfer through JSON.

## Main results

* `ProgramGraph.Descriptor.WellFormed.parse_render` — the written form is read back.
* `ProgramGraph.Descriptor.WellFormed.foldlM_perform` — transfers do nothing.
* `ProgramGraph.Descriptor.WellFormed.survives` — all of it.
-/

namespace ProgramGraph.Descriptor

variable {t : Descriptor}

/-- Each part is written in its own characters. -/
structure WellFormed (t : Descriptor) : Prop where
  /-- There is a name. -/
  named : t.name ≠ ""
  /-- The name is written in the characters of names. -/
  nameChars : ∀ c ∈ t.name.toList, isNameChar c = true
  /-- The adjustment is written in marks, whether they match or not. -/
  marks : ∀ c ∈ t.adjustment.toList, isMark c = true
  /-- The modifier, if there is one, is written in letters. -/
  letters : ∀ c ∈ t.modifier.toList, isLetter c = true
  /-- It is not the word that marks a structure. -/
  notStruct : t.modifier ≠ "struct"

/-- Whether a type is well formed can be seen from its parts. -/
instance : Decidable t.WellFormed :=
  decidable_of_iff (t.name ≠ "" ∧ t.name.toList.all isNameChar = true ∧
      t.adjustment.toList.all isMark = true ∧ t.modifier.toList.all isLetter = true ∧
      t.modifier ≠ "struct") <| by
    simp only [List.all_eq_true]
    exact ⟨fun ⟨named, nameChars, marks, letters, notStruct⟩ =>
        ⟨named, nameChars, marks, letters, notStruct⟩,
      fun h => ⟨h.named, h.nameChars, h.marks, h.letters, h.notStruct⟩⟩

/-- A type is made of the characters of its parts. -/
theorem ofParts_toList (t : Descriptor) :
    ofParts t.modifier.toList t.name.toList t.adjustment.toList = t := by
  simp [ofParts]

/-- The characters of the written form. -/
theorem toList_render (t : Descriptor) :
    t.render.toList = written t.modifier.toList t.name.toList t.adjustment.toList := by
  rw [← toList_render_ofParts, ofParts_toList]

/-! ## Levels -/

/-- Dropping a level leaves a part of the marks. -/
theorem dropLevel_sublist (marks : List Char) : (dropLevel marks).Sublist marks := by
  fun_induction dropLevel marks with
  | case1 => exact List.Sublist.refl _
  | case2 rest => exact List.sublist_cons_self _ _
  | case3 rest => exact (List.sublist_cons_self _ _).cons _
  | case4 c rest _ _ ih => exact ih.cons_cons c

namespace WellFormed

/-- The parts of a well-formed type can be told apart in the written form. -/
theorem legible (h : t.WellFormed) :
    Legible t.modifier.toList t.name.toList t.adjustment.toList where
  letters := h.letters
  nameChars := h.nameChars
  marks := h.marks
  notStruct heq := h.notStruct (String.toList_inj.mp heq)
  notAlone _ hnone := h.named (String.toList_eq_nil_iff.mp (List.append_eq_nil_iff.mp hnone).1)

/-- **The written form is read back.** -/
theorem parse_render (h : t.WellFormed) : parse t.render = t := by
  rw [parse, toList_render, h.legible.parseChars_written, ofParts_toList]

/-- One level more keeps a type well formed. -/
theorem reference (h : t.WellFormed) : t.reference.WellFormed where
  named := h.named
  nameChars := h.nameChars
  marks c hc := by
    rw [Descriptor.reference, String.toList_append] at hc
    rcases List.mem_append.mp hc with hc | hc
    · obtain rfl := List.mem_singleton.mp hc
      rfl
    · exact h.marks c hc
  letters := h.letters
  notStruct := h.notStruct

/-- One level less keeps a type well formed. -/
theorem dereference (h : t.WellFormed) : t.dereference.WellFormed where
  named := h.named
  nameChars := h.nameChars
  marks c hc := by
    rw [Descriptor.dereference, String.toList_ofList] at hc
    exact h.marks c ((dropLevel_sublist _).subset hc)
  letters := h.letters
  notStruct := h.notStruct

/-- A well-formed type is read back from its JSON text. -/
theorem read_encode (h : t.WellFormed) : read t.encode.compact = .ok t := by
  have htext := Json.textHere_writeText "a string" t.render []
  rw [List.append_nil] at htext
  rw [read, encode, Json.Value.compact, Json.whole, htext]
  exact congrArg Except.ok h.parse_render

end WellFormed

/-! ## Levels and transfers -/

/-- Something that is done with a type. -/
inductive Step where
  /-- One pointer level more. -/
  | reference
  /-- One pointer or array level less. -/
  | dereference
  /-- The type is written as JSON and read again. -/
  | transfer
deriving DecidableEq, Repr

/-- A step that is really taken: a transfer goes on with what was read. -/
def Step.perform (t : Descriptor) : Step → Except Json.Failure Descriptor
  | .reference => .ok t.reference
  | .dereference => .ok t.dereference
  | .transfer => read t.encode.compact

/-- What a step is meant to give: a transfer changes nothing. -/
def Step.goal (t : Descriptor) : Step → Descriptor
  | .reference => t.reference
  | .dereference => t.dereference
  | .transfer => t

namespace WellFormed

/-- A step from a well-formed type gives what it is meant to, which is well formed. -/
theorem perform (h : t.WellFormed) (step : Step) :
    step.perform t = .ok (step.goal t) ∧ (step.goal t).WellFormed := by
  cases step with
  | reference => exact ⟨rfl, h.reference⟩
  | dereference => exact ⟨rfl, h.dereference⟩
  | transfer => exact ⟨h.read_encode, h⟩

/-- **Transfers do nothing,** however many levels are added and taken away between them. -/
theorem foldlM_perform (h : t.WellFormed) (steps : List Step) :
    steps.foldlM Step.perform t = .ok (steps.foldl Step.goal t) ∧
      (steps.foldl Step.goal t).WellFormed := by
  induction steps generalizing t with
  | nil => exact ⟨rfl, h⟩
  | cons step steps ih =>
    obtain ⟨hstep, hgoal⟩ := h.perform step
    rw [List.foldlM_cons, hstep, List.foldl_cons]
    exact ih hgoal

/-- **Well-formed types survive their text form.** The written form is read as the same type. A level
more and a level less keep a type well formed, and one after the other they cancel. And if in any
sequence of levels added and taken away the type is written as JSON and read again, at any points of
the sequence, this always succeeds, and the outcome is the one without it.

**Proof sketch.** The written form of a well-formed type is legible, and a legible text is cut at the same
places where it was put together. Adding a level appends a mark, taking one away removes the mark that was
added last, so both keep the type well formed. Induction on the steps: each one is performed on a well-formed
type, for which writing and reading is the identity. -/
theorem survives (h : t.WellFormed) :
    parse t.render = t ∧ t.reference.WellFormed ∧ t.dereference.WellFormed ∧
      t.reference.dereference = t ∧
      ∀ steps : List Step, steps.foldlM Step.perform t = .ok (steps.foldl Step.goal t) ∧
        (steps.foldl Step.goal t).WellFormed :=
  ⟨h.parse_render, h.reference, h.dereference, t.dereference_reference, h.foldlM_perform⟩

/-- A qualified type whose brackets do not match. -/
theorem survives_unbalanced :
    let t : Descriptor := { name := "Map<K.V>", adjustment := "][*", modifier := "const" }
    t.WellFormed ∧ parse t.render = t ∧ t.reference.WellFormed ∧ t.dereference.WellFormed ∧
      t.reference.dereference = t ∧
      ∀ steps : List Step, steps.foldlM Step.perform t = .ok (steps.foldl Step.goal t) ∧
        (steps.foldl Step.goal t).WellFormed := by
  intro t
  have h : t.WellFormed := by decide
  exact ⟨h, h.survives⟩

end WellFormed

end ProgramGraph.Descriptor
