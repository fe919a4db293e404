import Mathlib.Data.List.Basic
import ProgramGraph.Config
import ProgramGraph.Proofs.Configurations.Quotes

set_option autoImplicit false

/-!
# Reading back configurations

The text of a configuration is a line for each key that is set. Every line is read back as the
assignment that it writes, so the whole text is read back as the table of these assignments, and the
table as the configuration.

## Main definitions

* `ProgramGraph.Toml.IsKey` — a key that needs no quotes.
* `ProgramGraph.Toml.Written` — a value in its written form.
* `ProgramGraph.Toml.Assignment` — a line that assigns a written value to a key.

## Main results

* `ProgramGraph.Toml.written_quote`, `ProgramGraph.Toml.written_writeTexts` — texts and arrays of texts.
* `ProgramGraph.Toml.readStatement_line` — a line is read back.
* `ProgramGraph.Toml.read_lines` — lines with different keys are read back as a table.
* `ProgramGraph.Config.read_render` — a configuration is read back from its text.
-/

namespace ProgramGraph

namespace Toml

variable {rest text : List Char} {c : Char} {steps depth : Nat}

/-! ## Gaps -/

/-- What is neither a gap nor the start of a comment stays. -/
theorem skipGap_cons (hline : c ≠ '\n') (hblank : isBlank c = false) (hcomment : c ≠ '#')
    (text : List Char) : skipGap false (c :: text) = c :: text := by
  simp [skipGap, hline, hblank, hcomment]

/-- A text in quotes begins with a quote. -/
theorem exists_quote_eq_cons (s : String) :
    ∃ mark tail, (quote s).toList = mark :: tail ∧ (mark = '"' ∨ mark = '\'') := by
  rw [quote, String.toList_ofList]
  exact exists_write_eq_cons (formFor s.toList) s.toList

/-- A quote begins neither a gap nor a comment. -/
theorem skipGap_quote (s : String) (rest : List Char) :
    skipGap false ((quote s).toList ++ rest) = (quote s).toList ++ rest := by
  obtain ⟨mark, tail, hquote, rfl | rfl⟩ := exists_quote_eq_cons s
  · rw [hquote]
    exact skipGap_cons (by decide) (by decide) (by decide) _
  · rw [hquote]
    exact skipGap_cons (by decide) (by decide) (by decide) _

/-! ## Texts -/

/-- A text in quotes is read as the text. -/
theorem readValue_quote (s : String) (hrest : EndsQuoted rest) (steps depth : Nat) :
    readValue (steps + 1) depth ((quote s).toList ++ rest) = some (.text s, rest) := by
  have hread : readQuoted ((quote s).toList ++ rest) = some (s.toList, rest) := by
    rw [quote, String.toList_ofList]
    exact readQuoted_write (fits_formFor s.toList) hrest
  obtain ⟨mark, tail, hquote, rfl | rfl⟩ := exists_quote_eq_cons s
  · rw [hquote, List.cons_append] at hread ⊢
    rw [readValue, hread]
    simp
  · rw [hquote, List.cons_append] at hread ⊢
    rw [readValue, hread]
    simp

/-- No carriage return is left in a quoted text, since it is escaped. -/
theorem notMem_quote (s : String) : '\r' ∉ (quote s).toList := by
  rw [quote, String.toList_ofList]
  exact notMem_write (fits_formFor s.toList)

/-! ## Arrays of texts -/

/-- The lines of the elements of an array, and what follows the array. -/
def elementsText (texts : List String) (rest : List Char) : List Char :=
  texts.flatMap (fun t => (elementLine t).toList) ++ ']' :: rest

/-- The lines of a list, the first element apart. -/
theorem elementsText_cons (t : String) (texts : List String) (rest : List Char) :
    elementsText (t :: texts) rest =
      ' ' :: ' ' :: ' ' :: ' ' :: ((quote t).toList ++ ',' :: '\n' :: elementsText texts rest) := by
  simp [elementsText, elementLine]

/-- In front of an element there are blanks. -/
theorem skipGap_elementsText (t : String) (texts : List String) (rest : List Char) :
    skipGap false ('\n' :: elementsText (t :: texts) rest) =
      (quote t).toList ++ ',' :: '\n' :: elementsText texts rest := by
  rw [elementsText_cons]
  simp [skipGap, isBlank, skipGap_quote]

/-- Elements on lines of their own are read as the texts.

**Proof sketch.** By induction on the texts that follow. An element ends at its comma, behind which there is a
gap up to the quote of the next element or up to the closing bracket. -/
theorem readElements_elementsText (t : String) (texts : List String) (rest : List Char)
    (h : texts.length + 1 < steps) :
    readElements steps depth ((quote t).toList ++ ',' :: '\n' :: elementsText texts rest) =
      some ((t :: texts).map .text, rest) := by
  induction texts generalizing t steps with
  | nil =>
    obtain ⟨n, rfl⟩ := Nat.exists_eq_add_of_lt h
    have hcomma : EndsQuoted (',' :: '\n' :: elementsText [] rest) := by simp [EndsQuoted]
    have hvalue := readValue_quote t hcomma n depth
    have hsteps : ([] : List String).length + 1 + n + 1 = n + 1 + 1 := by simp; omega
    rw [hsteps, readElements, hvalue]
    simp [elementsText, skipGap, isBlank]
  | cons next texts ih =>
    obtain ⟨n, rfl⟩ := Nat.exists_eq_add_of_lt h
    have hcomma : EndsQuoted (',' :: '\n' :: elementsText (next :: texts) rest) := by simp [EndsQuoted]
    have hvalue := readValue_quote t hcomma (texts.length + 1 + n) depth
    have hnext := @ih (texts.length + 1 + n + 1) next (by omega)
    have hsteps : (next :: texts).length + 1 + n + 1 = texts.length + 1 + n + 1 + 1 := by
      simp only [List.length_cons]; omega
    rw [hsteps, readElements, hvalue]
    have hgap := skipGap_elementsText next texts rest
    obtain ⟨mark, tail, hquote, rfl | rfl⟩ := exists_quote_eq_cons next
    · rw [hquote, List.cons_append] at hgap hnext
      simp [skipGap_cons, isBlank, hgap, hnext]
    · rw [hquote, List.cons_append] at hgap hnext
      simp [skipGap_cons, isBlank, hgap, hnext]

/-- An array whose first element is a text in quotes is read element by element. -/
theorem readValue_array {t : String} {tail : List Char}
    (h : skipGap false text = (quote t).toList ++ tail) (steps depth : Nat) :
    readValue (steps + 1) (depth + 1) ('[' :: text) =
      (readElements steps depth ((quote t).toList ++ tail)).map fun (vs, rest) => (.array vs, rest) := by
  rw [← h, readValue]
  obtain ⟨mark, more, hquote, rfl | rfl⟩ := exists_quote_eq_cons t
  · simp [h, hquote]
  · simp [h, hquote]

/-! ## Values in their written form -/

/-- What is written is a value: at the end of a line it is read as the value, it does not begin with a
blank, and it has no line end of two characters in it. -/
structure Written (written : String) (v : Value) : Prop where
  /-- At the end of a line it is read as the value. -/
  reads : ∀ (steps : Nat) (rest : List Char), written.toList.length < steps →
    readValue steps maxDepth (written.toList ++ '\n' :: rest) = some (v, '\n' :: rest)
  /-- It does not begin with a blank. -/
  begins : ∀ rest : List Char, skipBlanks (written.toList ++ rest) = written.toList ++ rest
  /-- It has no line end of two characters in it. -/
  lineEnds : '\r' ∉ written.toList

/-- **Texts in quotes are read back.** -/
theorem written_quote (s : String) : Written (quote s) (.text s) where
  reads steps rest hsteps := by
    obtain ⟨n, rfl⟩ := Nat.exists_eq_add_of_lt hsteps
    exact readValue_quote s (by simp [EndsQuoted]) _ maxDepth
  begins rest := by
    obtain ⟨mark, tail, hquote, rfl | rfl⟩ := exists_quote_eq_cons s <;>
      simp [hquote, skipBlanks, isBlank]
  lineEnds := notMem_quote s

/-- An array of several texts, as the characters that are read. -/
theorem toList_writeTexts (first second : String) (texts : List String) (rest : List Char) :
    (writeTexts (first :: second :: texts)).toList ++ rest =
      '[' :: '\n' :: elementsText (first :: second :: texts) rest := by
  simp [writeTexts, elementsText, List.flatMap_map]

/-- There are more characters than elements in the lines of a list. -/
theorem length_lt_elementsText (texts : List String) (rest : List Char) :
    texts.length < (elementsText texts rest).length := by
  induction texts with
  | nil => simp [elementsText]
  | cons t texts ih =>
    rw [elementsText_cons]
    simp only [List.length_cons, List.length_append] at ih ⊢
    omega

/-- No carriage return is in the lines of a list. -/
theorem notMem_elementsText (texts : List String) : '\r' ∉ elementsText texts [] := by
  induction texts with
  | nil => simp [elementsText]
  | cons t texts ih =>
    rw [elementsText_cons]
    simp [notMem_quote, ih]

/-- **Arrays of texts are read back.** One text stands between the brackets, more have lines of their
own.

**Proof sketch.** No text, a single one and several are laid out differently, so each is read back in its own
way; the last by induction on the lines (`readElements_elementsText`). The steps are bounded by the characters
of the text. -/
theorem written_writeTexts (texts : List String) : Written (writeTexts texts) (.array (texts.map .text)) := by
  match texts with
  | [] =>
    refine ⟨fun steps rest hsteps => ?_, fun rest => ?_, by decide⟩
    · obtain ⟨n, rfl⟩ := Nat.exists_eq_add_of_lt hsteps
      simp [writeTexts, readValue, maxDepth, skipGap, isBlank]
    · simp [writeTexts, skipBlanks, isBlank]
  | [t] =>
    refine ⟨fun steps rest hsteps => ?_, fun rest => ?_, by simp [writeTexts, notMem_quote]⟩
    · -- the only element and its bracket take three steps
      have hclose : EndsQuoted (']' :: '\n' :: rest) := by simp [EndsQuoted]
      have htext : (writeTexts [t]).toList ++ '\n' :: rest =
          '[' :: ((quote t).toList ++ ']' :: '\n' :: rest) := by simp [writeTexts]
      obtain ⟨n, rfl⟩ : ∃ n, steps = n + 1 + 1 + 1 :=
        ⟨steps - 3, by simp [writeTexts] at hsteps; omega⟩
      rw [htext]
      refine (readValue_array (skipGap_quote t _) _ _).trans ?_
      rw [readElements, readValue_quote t hclose]
      simp [skipGap, isBlank]
    · simp [writeTexts, skipBlanks, isBlank]
  | first :: second :: texts =>
    have htext := toList_writeTexts first second texts
    refine ⟨fun steps rest hsteps => ?_, fun rest => ?_, ?_⟩
    · have hlength := length_lt_elementsText (first :: second :: texts) []
      have hread := htext []
      rw [List.append_nil] at hread
      rw [hread, List.length_cons, List.length_cons] at hsteps
      simp only [List.length_cons] at hlength
      obtain ⟨n, rfl⟩ : ∃ n, steps = n + 1 := Nat.exists_eq_add_of_le' (by omega)
      rw [htext]
      refine (readValue_array (skipGap_elementsText first (second :: texts) _) _ _).trans ?_
      rw [readElements_elementsText first (second :: texts) _ (by simp only [List.length_cons]; omega)]
      rfl
    · rw [htext]
      simp [skipBlanks, isBlank]
    · have h := htext []
      rw [List.append_nil] at h
      rw [h]
      simp [notMem_elementsText]

/-! ## Lines -/

/-- A key that needs no quotes. -/
def IsKey (key : String) : Prop := key.toList ≠ [] ∧ ∀ c ∈ key.toList, isKeyChar c = true

/-- A line that assigns a written value to a key. -/
structure Assignment where
  key : String
  written : String
  value : Value

namespace Assignment

/-- The characters of the line. -/
def line (a : Assignment) : List Char := (writeAssignment a.key a.written).toList

/-- The key needs no quotes, and what is written is the value. -/
structure Sound (a : Assignment) : Prop where
  isKey : IsKey a.key
  written : Written a.written a.value

variable {a : Assignment} {as : List Assignment}

/-- The line of an assignment in its parts: the key, the equals sign, the value and the line end. -/
theorem line_append (a : Assignment) (rest : List Char) :
    a.line ++ rest = a.key.toList ++ ' ' :: '=' :: ' ' :: (a.written.toList ++ '\n' :: rest) := by
  simp [line, writeAssignment]

end Assignment

/-- No character of a key has another meaning. -/
theorem ne_of_isKeyChar {mark : Char} (hc : isKeyChar c = true) (hmark : isKeyChar mark = false) :
    c ≠ mark := by
  rintro rfl
  exact absurd hc (by simp [hmark])

/-- What stands in front of something that is no part of a key is read as a part. -/
theorem readPart_append {key : String} (hkey : IsKey key) (hc : isKeyChar c = false) (rest : List Char) :
    readPart (key.toList ++ c :: rest) = some (key, c :: rest) := by
  obtain ⟨hne, hchars⟩ := hkey
  have htake : (key.toList ++ c :: rest).takeWhile isKeyChar = key.toList := by
    rw [List.takeWhile_append_of_pos hchars]
    simp [hc]
  have hdrop : (key.toList ++ c :: rest).dropWhile isKeyChar = c :: rest := by
    rw [List.dropWhile_append_of_pos hchars]
    simp [hc]
  have hquoted : readShortQuoted (key.toList ++ c :: rest) = none := by
    obtain ⟨first, tail, hkey⟩ := List.exists_cons_of_ne_nil hne
    have hfirst : isKeyChar first = true := hchars first (by simp [hkey])
    rw [hkey, List.cons_append]
    unfold readShortQuoted
    split
    · next h => exact absurd (List.cons.inj h).1 (ne_of_isKeyChar hfirst (by decide))
    · next h => exact absurd (List.cons.inj h).1 (ne_of_isKeyChar hfirst (by decide))
    · rfl
  rw [readPart, hquoted]
  simp only [htake, hdrop]
  simp [hne]

/-- Nothing is skipped in front of a key. -/
theorem exists_eq_cons_of_isKey {key : String} (hkey : IsKey key) :
    ∃ first tail, key.toList = first :: tail ∧ isKeyChar first = true := by
  obtain ⟨first, tail, h⟩ := List.exists_cons_of_ne_nil hkey.1
  exact ⟨first, tail, h, hkey.2 first (by simp [h])⟩

/-- Characters of keys are no blanks. -/
theorem isBlank_eq_false_of_isKeyChar (hc : isKeyChar c = true) : isBlank c = false := by
  simp [isBlank, ne_of_isKeyChar hc (show isKeyChar ' ' = false by decide),
    ne_of_isKeyChar hc (show isKeyChar '\t' = false by decide)]

/-- A key is read up to the equals sign behind it. -/
theorem readKey_append {key : String} (hkey : IsKey key) (rest : List Char) :
    readKey (key.toList ++ ' ' :: '=' :: rest) = some ([key], '=' :: rest) := by
  have hpart := readPart_append hkey (show isKeyChar ' ' = false by decide) ('=' :: rest)
  have hskip : skipBlanks (key.toList ++ ' ' :: '=' :: rest) = key.toList ++ ' ' :: '=' :: rest := by
    obtain ⟨first, tail, hlist, hfirst⟩ := exists_eq_cons_of_isKey hkey
    simp [hlist, skipBlanks, isBlank_eq_false_of_isKeyChar hfirst]
  have hparts : readParts ((key.toList ++ ' ' :: '=' :: rest).length + 1)
      (key.toList ++ ' ' :: '=' :: rest) = some ([key], '=' :: rest) := by
    rw [readParts, hskip, hpart]
    simp [skipBlanks, isBlank]
  rw [readKey, hparts]
  simp [maxDepth, guard]

/-- **A line is read as its assignment.** -/
theorem readStatement_line {a : Assignment} (ha : a.Sound) (rest : List Char) :
    readStatement (a.line ++ rest) = some (.assignment [a.key] a.value, rest) := by
  have hvalue := ha.written.reads (stepsFor (' ' :: (a.written.toList ++ '\n' :: rest))) rest
    (by simp only [stepsFor, List.length_cons, List.length_append]; omega)
  have hskip : skipBlanks (' ' :: (a.written.toList ++ '\n' :: rest)) = a.written.toList ++ '\n' :: rest :=
    ha.written.begins ('\n' :: rest)
  have hend : endLine ('\n' :: rest) = some rest := by simp [endLine, skipBlanks, skipComment, isBlank]
  have hkey := readKey_append ha.isKey (' ' :: (a.written.toList ++ '\n' :: rest))
  rw [a.line_append]
  obtain ⟨first, tail, hlist, hfirst⟩ := exists_eq_cons_of_isKey ha.isKey
  unfold readStatement
  split
  · next h =>
    rw [hlist] at h
    exact absurd (List.cons.inj h).1 (ne_of_isKeyChar hfirst (by decide))
  · next h =>
    rw [hlist] at h
    exact absurd (List.cons.inj h).1 (ne_of_isKeyChar hfirst (by decide))
  · rw [hkey]
    simp [hskip, hvalue, hend]

/-- Lines are read as their assignments, in the same order.

**Proof sketch.** By induction on the lines. A line begins with its key, which is no gap, and is read up to
the next line. -/
theorem readStatements_lines {as : List Assignment} (h : ∀ a ∈ as, a.Sound) (hsteps : as.length < steps) :
    readStatements steps (as.flatMap Assignment.line) =
      some (as.map fun a => .assignment [a.key] a.value) := by
  induction as generalizing steps with
  | nil =>
    obtain ⟨n, rfl⟩ := Nat.exists_eq_add_of_lt hsteps
    rfl
  | cons a as ih =>
    obtain ⟨ha, has⟩ := List.forall_mem_cons.mp h
    obtain ⟨n, rfl⟩ : ∃ n, steps = n + 1 := ⟨steps - 1, by omega⟩
    have hrest := @ih n has (by simpa using hsteps)
    have hread := readStatement_line ha (as.flatMap Assignment.line)
    obtain ⟨first, tail, hlist, hfirst⟩ := exists_eq_cons_of_isKey ha.isKey
    have hcons : ∃ more, a.line ++ as.flatMap Assignment.line = first :: more :=
      ⟨_, by rw [a.line_append, hlist]; rfl⟩
    obtain ⟨more, hmore⟩ := hcons
    have hgap : skipGap false (first :: more) = first :: more :=
      skipGap_cons (ne_of_isKeyChar hfirst (by decide)) (isBlank_eq_false_of_isKeyChar hfirst)
        (ne_of_isKeyChar hfirst (by decide)) more
    rw [List.flatMap_cons, readStatements, hmore, hgap]
    rw [hmore] at hread
    simp [hread, hrest]

/-! ## Whole texts -/

/-- An assignment of a key that is not there yet adds its value. -/
theorem add_assignment {entries : Entries} {key : String} (hkey : entries.lookup key = none) (v : Value) :
    Assembly.add ⟨entries, []⟩ (.assignment [key] v) = some ⟨entries ++ [(key, .value v)], []⟩ := by
  simp [Assembly.add, within, assign, hkey]

/-- Assignments of different keys add their values one after the other. -/
theorem foldlM_add {as : List Assignment} (distinct : (as.map Assignment.key).Nodup) (entries : Entries)
    (missing : ∀ a ∈ as, entries.lookup a.key = none) :
    (as.map fun a => Statement.assignment [a.key] a.value).foldlM Assembly.add ⟨entries, []⟩ =
      some ⟨entries ++ as.map fun a => (a.key, .value a.value), []⟩ := by
  induction as generalizing entries with
  | nil => simp
  | cons a as ih =>
    obtain ⟨hnew, hdistinct⟩ := List.nodup_cons.mp distinct
    obtain ⟨hmissing, hothers⟩ := List.forall_mem_cons.mp missing
    have hafter : ∀ b ∈ as, (entries ++ [(a.key, Node.value a.value)]).lookup b.key = none := by
      intro b hb
      have hne : b.key ≠ a.key := fun h => hnew (h ▸ List.mem_map_of_mem hb)
      have hbeq : (b.key == a.key) = false := beq_eq_false_iff_ne.mpr hne
      rw [List.lookup_append, hothers b hb]
      simp [List.lookup_cons, hbeq]
    have hrest := ih hdistinct _ hafter
    rw [List.map_cons, List.foldlM_cons, add_assignment hmissing]
    simpa using hrest

/-- Assignments are read as their keys with their values. -/
theorem valuesOf_values (as : List Assignment) :
    valuesOf (as.map fun a => (a.key, .value a.value)) = as.map fun a => (a.key, a.value) := by
  induction as with
  | nil => rfl
  | cons a as ih => simp [valuesOf, Node.toValue, ih]

/-- Assignments of different keys are a table. -/
theorem tableOf_assignments {as : List Assignment} (distinct : (as.map Assignment.key).Nodup) :
    tableOf (as.map fun a => Statement.assignment [a.key] a.value) =
      some (as.map fun a => (a.key, a.value)) := by
  have hfold := foldlM_add distinct [] (by simp)
  rw [tableOf]
  simp only [List.nil_append] at hfold
  rw [hfold, Option.map_some, valuesOf_values]

/-- Without line ends of two characters there is nothing to unify. -/
theorem unifyLineEnds_eq_self (h : '\r' ∉ text) : unifyLineEnds text = text := by
  induction text with
  | nil => rfl
  | cons c text ih =>
    obtain ⟨hc, htext⟩ := not_or.mp fun h' => h (List.mem_cons.mpr h')
    unfold unifyLineEnds
    split
    · next heq => exact absurd (List.cons.inj heq).1.symm hc
    · next heq =>
      obtain ⟨rfl, rfl⟩ := List.cons.inj heq
      rw [ih htext]
    · next heq => exact absurd heq (List.cons_ne_nil c text)

/-- No carriage return is in the line of a sound assignment. -/
theorem notMem_line {a : Assignment} (ha : a.Sound) : '\r' ∉ a.line := by
  have hkey : '\r' ∉ a.key.toList := fun h => absurd (ha.isKey.2 _ h) (by decide)
  have h := a.line_append []
  rw [List.append_nil] at h
  rw [h]
  simp [hkey, ha.written.lineEnds]

/-- Lines do not begin with the mark of an encoding. -/
theorem skipMark_lines {as : List Assignment} (h : ∀ a ∈ as, a.Sound) :
    skipMark (as.flatMap Assignment.line) = as.flatMap Assignment.line := by
  cases as with
  | nil => rfl
  | cons a as =>
    obtain ⟨first, tail, hlist, hfirst⟩ := exists_eq_cons_of_isKey (h a List.mem_cons_self).isKey
    rw [List.flatMap_cons, a.line_append, hlist]
    unfold skipMark
    split
    · next heq => exact absurd (List.cons.inj heq).1 (ne_of_isKeyChar hfirst (by decide))
    · rfl

/-- There are no fewer characters than assignments in their lines. -/
theorem length_le_lines (as : List Assignment) : as.length ≤ (as.flatMap Assignment.line).length := by
  induction as with
  | nil => simp
  | cons a as ih =>
    rw [List.flatMap_cons, a.line_append]
    simp only [List.length_cons, List.length_append]
    omega

/-- **Lines with different keys are read back as the table of their values.** -/
theorem read_lines {as : List Assignment} (h : ∀ a ∈ as, a.Sound)
    (distinct : (as.map Assignment.key).Nodup) :
    read (String.ofList (as.flatMap Assignment.line)) = some (as.map fun a => (a.key, a.value)) := by
  have hplain : '\r' ∉ as.flatMap Assignment.line := by
    rw [List.mem_flatMap]
    rintro ⟨a, ha, hmem⟩
    exact notMem_line (h a ha) hmem
  have hlength := Nat.lt_succ_of_le (length_le_lines as)
  have hstatements := readStatements_lines h hlength
  rw [read, String.toList_ofList, skipMark_lines h, unifyLineEnds_eq_self hplain]
  simp only [hstatements, bind, Option.bind]
  exact tableOf_assignments distinct

end Toml

namespace Config

open Toml

/-! ## Configurations -/

/-- The assignment for a key that may be missing. -/
def optionalAssignment {α : Type} (write : α → String) (value : α → Value) (key : String) :
    Option α → List Assignment
  | none => []
  | some a => [⟨key, write a, value a⟩]

/-- The assignments that the text of a configuration consists of. -/
def assignments (c : Config) : List Assignment :=
  optionalAssignment quote .text "input" c.input ++
    optionalAssignment quote .text "format" c.format ++
    optionalAssignment writeTexts (fun texts => .array (texts.map .text)) "passes" c.passes

variable {c : Config}

/-- An optional assignment is sound if its value is written as what it is. -/
theorem sound_of_mem_optionalAssignment {α : Type} {write : α → String} {value : α → Value} {key : String}
    (hkey : IsKey key) (hwritten : ∀ a, Written (write a) (value a)) (o : Option α) :
    ∀ a ∈ optionalAssignment write value key o, a.Sound := by
  cases o with
  | none => simp [optionalAssignment]
  | some b => simpa [optionalAssignment] using ⟨hkey, hwritten b⟩

/-- What the text of a configuration assigns is in its written form. -/
theorem sound_of_mem_assignments (c : Config) : ∀ a ∈ c.assignments, a.Sound := by
  intro a ha
  rw [assignments, List.mem_append, List.mem_append] at ha
  rcases ha with (ha | ha) | ha
  · exact sound_of_mem_optionalAssignment ⟨by decide, List.all_eq_true.mp (by decide)⟩ written_quote _ a ha
  · exact sound_of_mem_optionalAssignment ⟨by decide, List.all_eq_true.mp (by decide)⟩ written_quote _ a ha
  · exact sound_of_mem_optionalAssignment ⟨by decide, List.all_eq_true.mp (by decide)⟩ written_writeTexts _ a ha

/-- An optional assignment has the one key, if it is there. -/
theorem keys_sublist {α : Type} (write : α → String) (value : α → Value) (key : String) (o : Option α) :
    ((optionalAssignment write value key o).map Assignment.key).Sublist [key] := by
  cases o with
  | none => exact List.nil_sublist _
  | some a => exact .refl _

/-- No key is assigned twice. -/
theorem nodup_keys (c : Config) : (c.assignments.map Assignment.key).Nodup := by
  have hkeys : (c.assignments.map Assignment.key).Sublist (["input"] ++ ["format"] ++ ["passes"]) := by
    rw [assignments, List.map_append, List.map_append]
    exact ((keys_sublist _ _ _ _).append (keys_sublist _ _ _ _)).append (keys_sublist _ _ _ _)
  exact hkeys.nodup (by decide)

/-- What is written for an optional value is the line of its assignment, if there is one. -/
theorem toList_writeOptional {α : Type} (write : α → String) (value : α → Value) (key : String)
    (o : Option α) : (writeOptional write key o).toList =
      (optionalAssignment write value key o).flatMap Assignment.line := by
  cases o with
  | none => rfl
  | some a => simp [writeOptional, optionalAssignment, Assignment.line]

/-- The text of a configuration consists of the lines of its assignments. -/
theorem render_eq (c : Config) : c.render = String.ofList (c.assignments.flatMap Assignment.line) := by
  apply String.toList_injective
  rw [String.toList_ofList, assignments, List.flatMap_append, List.flatMap_append]
  simp only [render, String.toList_append, toList_writeOptional quote .text,
    toList_writeOptional writeTexts (fun texts => .array (texts.map .text))]

/-- A list of texts is read as these texts. -/
theorem textsOf?_texts (texts : List String) : textsOf? (.array (texts.map .text)) = some texts := by
  induction texts with
  | nil => rfl
  | cons t texts ih =>
    simp only [textsOf?, List.map_cons, List.mapM_cons] at ih ⊢
    simp [ih, textOf?]

/-- The values of the assignments make up the configuration. -/
theorem ofTable_assignments (c : Config) :
    ofTable (c.assignments.map fun a => (a.key, a.value)) = some c := by
  have htexts := textsOf?_texts
  obtain ⟨input, format, passes⟩ := c
  cases input <;> cases format <;> cases passes <;>
    simp [assignments, optionalAssignment, ofTable, lookUp, List.lookup_cons, textOf?, htexts]

/-- **Configurations are read back from their text.** -/
theorem read_render (c : Config) : read c.render = some c := by
  have hread := read_lines (sound_of_mem_assignments c) (nodup_keys c)
  rw [read, render_eq, hread]
  exact ofTable_assignments c

end Config

end ProgramGraph
