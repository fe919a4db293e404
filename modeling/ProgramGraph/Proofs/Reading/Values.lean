import ProgramGraph.Proofs.Reading.Tokens

set_option autoImplicit false

/-!
# Reading back values

The compact text of a value is read as the same value if its numbers are exact and its nesting is
within the limit. The steps that the reader needs are bounded by the length of the text.

## Main definitions

* `ProgramGraph.Json.Value.depth` — how deep arrays and objects are nested in a value.
* `ProgramGraph.Json.Value.IsExact` — all numbers of a value are within 64 bits.

## Main results

* `ProgramGraph.Json.readValue_compact` — a value is read back.
* `ProgramGraph.Json.readMembers_compact` — the members of an object are read back.
-/

namespace ProgramGraph.Json

/-! ## Depth and exactness -/

namespace Value

mutual

/-- How deep arrays and objects are nested in a value. -/
def depth : Value → Nat
  | .null => 0
  | .bool _ => 0
  | .number _ => 0
  | .text _ => 0
  | .array vs => elementsDepth vs + 1
  | .object ms => membersDepth ms + 1

/-- How deep arrays and objects are nested in the elements of an array. -/
def elementsDepth : List Value → Nat
  | [] => 0
  | v :: rest => max v.depth (elementsDepth rest)

/-- How deep arrays and objects are nested in the members of an object. -/
def membersDepth : List (String × Value) → Nat
  | [] => 0
  | (_, v) :: rest => max v.depth (membersDepth rest)

end

mutual

/-- All numbers of a value are within 64 bits. -/
def IsExact : Value → Prop
  | .null => True
  | .bool _ => True
  | .number n => n.IsExact
  | .text _ => True
  | .array vs => ElementsExact vs
  | .object ms => MembersExact ms

/-- All numbers of the elements of an array are within 64 bits. -/
def ElementsExact : List Value → Prop
  | [] => True
  | v :: rest => v.IsExact ∧ ElementsExact rest

/-- All numbers of the members of an object are within 64 bits. -/
def MembersExact : List (String × Value) → Prop
  | [] => True
  | (_, v) :: rest => v.IsExact ∧ MembersExact rest

end

/-- The depth of elements is bounded if that of each one is. -/
theorem elementsDepth_le_iff {vs : List Value} {n : Nat} :
    elementsDepth vs ≤ n ↔ ∀ v ∈ vs, v.depth ≤ n := by
  induction vs with
  | nil => simp [elementsDepth]
  | cons v vs ih => rw [elementsDepth, Nat.max_le, ih, List.forall_mem_cons]

/-- Elements are exact if each one is. -/
theorem elementsExact_iff {vs : List Value} : ElementsExact vs ↔ ∀ v ∈ vs, v.IsExact := by
  induction vs with
  | nil => simp [ElementsExact]
  | cons v vs ih => rw [ElementsExact, ih, List.forall_mem_cons]

/-- An object within a depth has its members within one less. -/
theorem exists_of_depth_object_le {ms : List (String × Value)} {n : Nat}
    (deep : (Value.object ms).depth ≤ n) : ∃ m, n = m + 1 ∧ membersDepth ms ≤ m := by
  rw [depth] at deep
  exact ⟨n - 1, by omega, by omega⟩

/-! ## Compact texts -/

/-- An array is written between brackets. -/
theorem toList_compact_array (vs : List Value) :
    (compact (.array vs)).toList = '[' :: ((compactElements vs).toList ++ [']']) := by
  simp [compact]

/-- An object is written between braces. -/
theorem toList_compact_object (ms : List (String × Value)) :
    (compact (.object ms)).toList = '{' :: ((compactMembers ms).toList ++ ['}']) := by
  simp [compact]

/-- Elements are separated by commas. -/
theorem toList_compactElements_more (v w : Value) (vs : List Value) :
    (compactElements (v :: w :: vs)).toList
      = v.compact.toList ++ ',' :: (compactElements (w :: vs)).toList := by
  simp [compactElements]

/-- A member is written as its key and its value, with a colon between them. -/
theorem toList_compactMembers_last (key : String) (v : Value) :
    (compactMembers [(key, v)]).toList = (writeText key).toList ++ ':' :: v.compact.toList := by
  simp [compactMembers]

/-- Members are separated by commas. -/
theorem toList_compactMembers_more (key : String) (v : Value) (w : String × Value)
    (ms : List (String × Value)) :
    (compactMembers ((key, v) :: w :: ms)).toList
      = (writeText key).toList
        ++ ':' :: (v.compact.toList ++ ',' :: (compactMembers (w :: ms)).toList) := by
  simp [compactMembers]

end Value

open Value (compactElements compactMembers)

variable {c : Char} {rest text : List Char} {v : Value} {steps depth : Nat}

/-- An exact number starts with a digit or a sign. -/
theorem Number.write_eq_cons {number : Number} (exact : number.IsExact) :
    ∃ c text, number.write.toList = c :: text ∧ (c.isDigit = true ∨ c = '-') := by
  cases number with
  | natural n =>
    have written : (Number.natural n).write.toList = Nat.toDigits 10 n := by
      simp [Number.write]
    have start := startsWithDigit_toDigits n []
    cases h : Nat.toDigits 10 n with
    | nil => exact absurd h Nat.toDigits_ne_nil
    | cons c text =>
      rw [h] at start
      exact ⟨c, text, written.trans h, .inl start⟩
  | negative n => exact ⟨'-', (toString n).toList, by simp [Number.write], .inr rfl⟩
  | double bits => exact exact.elim

/-- A digit or a sign starts nothing else than a number. -/
theorem startsNumber (start : c.isDigit = true ∨ c = '-') :
    isBlank c = false ∧ c ∉ [']', '[', '{', 'n', 't', 'f', '"'] := by
  obtain digit | rfl := start
  · have other : ∀ d : Char, d.isDigit = false → c ≠ d := by
      rintro d notDigit rfl
      rw [notDigit] at digit
      cases digit
    constructor
    · simp [isBlank, other ' ' rfl, other '\n' rfl, other '\t' rfl, other '\r' rfl]
    · simp [other ']' rfl, other '[' rfl, other '{' rfl, other 'n' rfl, other 't' rfl,
        other 'f' rfl, other '"' rfl]
  · decide

/-- What starts an exact value: neither a blank nor the end of an array. -/
theorem Value.compact_eq_cons (exact : v.IsExact) :
    ∃ c text, v.compact.toList = c :: text ∧ isBlank c = false ∧ c ≠ ']' := by
  cases v with
  | null => exact ⟨'n', ['u', 'l', 'l'], by simp [compact], by decide, by decide⟩
  | bool b =>
    cases b
    · exact ⟨'f', ['a', 'l', 's', 'e'], by simp [compact], by decide, by decide⟩
    · exact ⟨'t', ['r', 'u', 'e'], by simp [compact], by decide, by decide⟩
  | number number =>
    rw [IsExact] at exact
    obtain ⟨c, text, written, start⟩ := Number.write_eq_cons exact
    obtain ⟨notBlank, other⟩ := startsNumber start
    exact ⟨c, text, by rw [compact, written], notBlank, List.ne_of_not_mem_cons other⟩
  | text s => exact ⟨'"', _, by rw [compact, toList_writeText], by decide, by decide⟩
  | array vs => exact ⟨'[', _, toList_compact_array vs, by decide, by decide⟩
  | object ms => exact ⟨'{', _, toList_compact_object ms, by decide, by decide⟩

/-! ## Reading -/

/-- Where there are no blanks, none are skipped. -/
theorem skipBlanks_cons (notBlank : isBlank c = false) : skipBlanks (c :: text) = c :: text := by
  simp [skipBlanks, notBlank]

/-- Where neither an array nor an object starts, a scalar is read. -/
theorem readValue_scalar (notBlank : isBlank c = false) (noArray : c ≠ '[') (noObject : c ≠ '{') :
    readValue (steps + 1) depth (c :: text) = readScalar (c :: text) := by
  unfold readValue
  rw [skipBlanks_cons notBlank]
  simp [noArray, noObject]

/-- An empty array is read back. -/
theorem readValue_emptyArray :
    readValue (steps + 1) (depth + 1) ('[' :: ']' :: rest) = some (.array [], rest) := by
  unfold readValue
  simp [skipBlanks, isBlank]

/-- Any other array is read element by element. -/
theorem readValue_array (notBlank : isBlank c = false) (notEmpty : c ≠ ']') :
    readValue (steps + 1) (depth + 1) ('[' :: c :: text)
      = (readElements steps depth (c :: text)).map fun p => (.array p.1, p.2) := by
  unfold readValue
  rw [skipBlanks_cons (by decide)]
  simp [skipBlanks_cons notBlank, notEmpty]

/-- An empty object is read back. -/
theorem readValue_emptyObject :
    readValue (steps + 1) (depth + 1) ('{' :: '}' :: rest) = some (.object [], rest) := by
  unfold readValue
  simp [skipBlanks, isBlank]

/-- Any other object is read member by member. -/
theorem readValue_object :
    readValue (steps + 1) (depth + 1) ('{' :: '"' :: text)
      = (readMembers steps depth ('"' :: text)).map fun p => (.object p.1, p.2) := by
  unfold readValue
  simp [skipBlanks, isBlank]

/-- An element in front of the closing bracket is the last one. -/
theorem readElements_last (hv : readValue steps depth text = some (v, ']' :: rest)) :
    readElements (steps + 1) depth text = some ([v], rest) := by
  simp [readElements, hv, skipBlanks, isBlank]

/-- An element in front of a comma is followed by others. -/
theorem readElements_more {vs : List Value} {more : List Char}
    (hv : readValue steps depth text = some (v, ',' :: more))
    (hvs : readElements steps depth more = some (vs, rest)) :
    readElements (steps + 1) depth text = some (v :: vs, rest) := by
  simp [readElements, hv, skipBlanks, isBlank, hvs]

/-- A key is read up to the colon. -/
theorem readKey_writeText (key : String) (rest : List Char) :
    readKey ((writeText key).toList ++ ':' :: rest) = some (key, rest) := by
  have read := readString_escapeChars key (':' :: rest)
  simp [readKey, toList_writeText, skipBlanks, isBlank, read, skipColon]

/-- A member in front of the closing brace is the last one. -/
theorem readMembers_last {key : String} {more : List Char} (hkey : readKey text = some (key, more))
    (hv : readValue steps depth more = some (v, '}' :: rest)) :
    readMembers (steps + 1) depth text = some ([(key, v)], rest) := by
  simp [readMembers, hkey, hv, skipBlanks, isBlank]

/-- A member in front of a comma is followed by others. -/
theorem readMembers_more {key : String} {ms : List (String × Value)} {more others : List Char}
    (hkey : readKey text = some (key, more))
    (hv : readValue steps depth more = some (v, ',' :: others))
    (hms : readMembers steps depth others = some (ms, rest)) :
    readMembers (steps + 1) depth text = some ((key, v) :: ms, rest) := by
  simp [readMembers, hkey, hv, skipBlanks, isBlank, hms]

/-- A number is read as a scalar. -/
theorem readScalar_write {number : Number} (exact : number.IsExact) (hrest : EndsValue rest) :
    readScalar (number.write.toList ++ rest) = some (.number number, rest) := by
  obtain ⟨c, text, written, start⟩ := Number.write_eq_cons exact
  obtain ⟨-, other⟩ := startsNumber start
  have read := readNumber_write exact hrest
  rw [written, List.cons_append] at read ⊢
  unfold readScalar
  split <;> simp_all

/-- The text of the elements of an array starts with the text of the first element. -/
theorem compactElements_eq_append (v : Value) (vs : List Value) :
    ∃ text, (compactElements (v :: vs)).toList = v.compact.toList ++ text := by
  cases vs with
  | nil => exact ⟨[], by simp [compactElements]⟩
  | cons w vs => exact ⟨_, Value.toList_compactElements_more v w vs⟩

/-- The text of the members of an object starts with the quote of the first key. -/
theorem compactMembers_eq_cons (member : String × Value) (ms : List (String × Value)) :
    ∃ text, (compactMembers (member :: ms)).toList = '"' :: text := by
  obtain ⟨key, v⟩ := member
  cases ms with
  | nil =>
    rw [Value.toList_compactMembers_last, toList_writeText]
    exact ⟨_, rfl⟩
  | cons w ms =>
    rw [Value.toList_compactMembers_more, toList_writeText]
    exact ⟨_, rfl⟩

/-- An array is read back if its elements are. -/
theorem readValue_compact_array {vs : List Value} (exact : Value.ElementsExact vs)
    (elements : vs ≠ [] →
      readElements steps depth ((compactElements vs).toList ++ ']' :: rest) = some (vs, rest)) :
    readValue (steps + 1) (depth + 1) ((Value.array vs).compact.toList ++ rest)
      = some (.array vs, rest) := by
  rw [Value.toList_compact_array, List.cons_append, List.append_assoc, List.singleton_append]
  cases vs with
  | nil => exact readValue_emptyArray
  | cons v vs =>
    obtain ⟨text, hvs⟩ := compactElements_eq_append v vs
    obtain ⟨c, start, hv, notBlank, notEnd⟩ := Value.compact_eq_cons exact.1
    have read := elements (List.cons_ne_nil v vs)
    rw [hvs, hv, List.append_assoc, List.cons_append] at read ⊢
    rw [readValue_array notBlank notEnd, read]
    rfl

/-- An object is read back if its members are. -/
theorem readValue_compact_object {ms : List (String × Value)}
    (members : ms ≠ [] →
      readMembers steps depth ((compactMembers ms).toList ++ '}' :: rest) = some (ms, rest)) :
    readValue (steps + 1) (depth + 1) ((Value.object ms).compact.toList ++ rest)
      = some (.object ms, rest) := by
  rw [Value.toList_compact_object, List.cons_append, List.append_assoc, List.singleton_append]
  cases ms with
  | nil => exact readValue_emptyObject
  | cons member ms =>
    obtain ⟨text, hms⟩ := compactMembers_eq_cons member ms
    have read := members (List.cons_ne_nil member ms)
    rw [hms, List.cons_append] at read ⊢
    rw [readValue_object, read]
    rfl

mutual

/-- A value is read back from its compact text, in one step more than the text has characters.

**Proof sketch.** Structural recursion on the value. Scalars are read by their own lemmas. An array or an
object takes a step for its opening bracket and hands on the rest, one level deeper, to the lemma for its
elements or members. -/
theorem readValue_compact : ∀ (v : Value) (steps depth : Nat) (rest : List Char), v.IsExact →
    v.depth ≤ depth → v.compact.toList.length < steps → EndsValue rest →
    readValue steps depth (v.compact.toList ++ rest) = some (v, rest)
  | .null => by
    intro steps depth rest _ _ enough _
    obtain ⟨steps, rfl⟩ := Nat.exists_eq_add_one_of_ne_zero (Nat.ne_zero_of_lt enough)
    simp [Value.compact, readValue_scalar, isBlank, readScalar]
  | .bool b => by
    intro steps depth rest _ _ enough _
    obtain ⟨steps, rfl⟩ := Nat.exists_eq_add_one_of_ne_zero (Nat.ne_zero_of_lt enough)
    cases b <;> simp [Value.compact, readValue_scalar, isBlank, readScalar]
  | .number number => by
    intro steps depth rest exact _ enough hrest
    obtain ⟨steps, rfl⟩ := Nat.exists_eq_add_one_of_ne_zero (Nat.ne_zero_of_lt enough)
    rw [Value.IsExact] at exact
    obtain ⟨c, text, written, start⟩ := Number.write_eq_cons exact
    obtain ⟨notBlank, other⟩ := startsNumber start
    have read := readScalar_write exact hrest
    rw [Value.compact]
    rw [written, List.cons_append] at read ⊢
    rw [readValue_scalar notBlank (by simp_all) (by simp_all), read]
  | .text s => by
    intro steps depth rest _ _ enough _
    obtain ⟨steps, rfl⟩ := Nat.exists_eq_add_one_of_ne_zero (Nat.ne_zero_of_lt enough)
    have read := readString_escapeChars s rest
    simp [Value.compact, toList_writeText, readValue_scalar, isBlank, readScalar, read]
  | .array vs => by
    intro steps depth rest exact shallow enough _
    rw [Value.depth] at shallow
    obtain ⟨steps, rfl⟩ := Nat.exists_eq_add_one_of_ne_zero (Nat.ne_zero_of_lt enough)
    obtain ⟨depth, rfl⟩ := Nat.exists_eq_add_one_of_ne_zero (Nat.ne_zero_of_lt shallow)
    rw [Value.IsExact] at exact
    rw [Value.toList_compact_array] at enough
    -- the step for the array itself is paid by its opening bracket, the last one by the other
    simp only [List.length_cons, List.length_append, List.length_nil] at enough
    exact readValue_compact_array exact fun nonempty =>
      readElements_compact vs steps depth rest nonempty exact (by omega) (by omega)
  | .object ms => by
    intro steps depth rest exact shallow enough _
    rw [Value.depth] at shallow
    obtain ⟨steps, rfl⟩ := Nat.exists_eq_add_one_of_ne_zero (Nat.ne_zero_of_lt enough)
    obtain ⟨depth, rfl⟩ := Nat.exists_eq_add_one_of_ne_zero (Nat.ne_zero_of_lt shallow)
    rw [Value.IsExact] at exact
    rw [Value.toList_compact_object] at enough
    simp only [List.length_cons, List.length_append, List.length_nil] at enough
    exact readValue_compact_object fun nonempty =>
      readMembers_compact ms steps depth rest nonempty exact (by omega) (by omega)

/-- The elements of an array are read back up to its closing bracket.

**Proof sketch.** As for members: by recursion over the elements, and the step for an element is paid by the
comma behind it. -/
theorem readElements_compact : ∀ (vs : List Value) (steps depth : Nat) (rest : List Char), vs ≠ [] →
    Value.ElementsExact vs → Value.elementsDepth vs ≤ depth →
    (compactElements vs).toList.length + 1 < steps →
    readElements steps depth ((compactElements vs).toList ++ ']' :: rest) = some (vs, rest)
  | [] => by
    intro _ _ _ nonempty
    exact absurd rfl nonempty
  | [v] => by
    intro steps depth rest _ exact shallow enough
    obtain ⟨steps, rfl⟩ := Nat.exists_eq_add_one_of_ne_zero (Nat.ne_zero_of_lt enough)
    rw [compactElements] at enough ⊢
    rw [Value.elementsDepth, Nat.max_le] at shallow
    exact readElements_last <| readValue_compact v steps depth _ exact.1 shallow.1
      (by omega) (.inr (.inl rfl))
  | v :: w :: vs => by
    intro steps depth rest _ exact shallow enough
    obtain ⟨steps, rfl⟩ := Nat.exists_eq_add_one_of_ne_zero (Nat.ne_zero_of_lt enough)
    rw [Value.elementsDepth, Nat.max_le] at shallow
    -- the step for an element is paid by the comma behind it
    rw [Value.toList_compactElements_more] at enough ⊢
    simp only [List.length_append, List.length_cons] at enough
    rw [List.append_assoc, List.cons_append]
    have hv := readValue_compact v steps depth
      (',' :: ((compactElements (w :: vs)).toList ++ ']' :: rest)) exact.1 shallow.1
      (by omega) (.inl rfl)
    have hvs := readElements_compact (w :: vs) steps depth rest (List.cons_ne_nil w vs) exact.2
      shallow.2 (by omega)
    exact readElements_more hv hvs

/-- The members of an object are read back up to its closing brace.

**Proof sketch.** By recursion over the members, together with values and elements. The step that a member
takes is paid by the comma behind it, which is why a list with more than one member is a case of its own. -/
theorem readMembers_compact : ∀ (ms : List (String × Value)) (steps depth : Nat) (rest : List Char),
    ms ≠ [] → Value.MembersExact ms → Value.membersDepth ms ≤ depth →
    (compactMembers ms).toList.length + 1 < steps →
    readMembers steps depth ((compactMembers ms).toList ++ '}' :: rest) = some (ms, rest)
  | [] => by
    intro _ _ _ nonempty
    exact absurd rfl nonempty
  | [(key, v)] => by
    intro steps depth rest _ exact shallow enough
    obtain ⟨steps, rfl⟩ := Nat.exists_eq_add_one_of_ne_zero (Nat.ne_zero_of_lt enough)
    rw [Value.membersDepth, Nat.max_le] at shallow
    rw [Value.toList_compactMembers_last] at enough ⊢
    simp only [List.length_append, List.length_cons] at enough
    rw [List.append_assoc, List.cons_append]
    have hv := readValue_compact v steps depth ('}' :: rest) exact.1 shallow.1
      (by omega) (.inr (.inr rfl))
    exact readMembers_last (readKey_writeText key _) hv
  | (key, v) :: w :: ms => by
    intro steps depth rest _ exact shallow enough
    obtain ⟨steps, rfl⟩ := Nat.exists_eq_add_one_of_ne_zero (Nat.ne_zero_of_lt enough)
    rw [Value.membersDepth, Nat.max_le] at shallow
    rw [Value.toList_compactMembers_more] at enough ⊢
    simp only [List.length_append, List.length_cons] at enough
    rw [List.append_assoc, List.cons_append, List.append_assoc, List.cons_append]
    have hv := readValue_compact v steps depth
      (',' :: ((compactMembers (w :: ms)).toList ++ '}' :: rest)) exact.1 shallow.1
      (by omega) (.inl rfl)
    have hms := readMembers_compact (w :: ms) steps depth rest (List.cons_ne_nil w ms) exact.2
      shallow.2 (by omega)
    exact readMembers_more (readKey_writeText key _) hv hms

end

end ProgramGraph.Json
