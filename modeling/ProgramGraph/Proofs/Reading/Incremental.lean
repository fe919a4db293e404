import ProgramGraph.Json.Incremental
import ProgramGraph.Proofs.Reading.Values

set_option autoImplicit false

/-!
# Decoding compact texts while reading

What decodes while it reads does so with the compact text of a value. An array is decoded if its
elements are, and an object with a tag is split into the tag and the other members, if these are within
the depth that is left.

## Main results

* `ProgramGraph.Json.listHere_compact` — an array is decoded element by element.
* `ProgramGraph.Json.Alternatives.splitHere_compact` — the tag and the other members of an object.
-/

namespace ProgramGraph.Json

open Value (compactElements compactMembers)

variable {key : String} {rest more : List Char} {v : Value} {depth steps : Nat}

/-! ## Simple values -/

/-- A text that was written is read back, up to its closing quote. -/
theorem readString_writeText (s : String) (rest : List Char) :
    ∃ text, (writeText s).toList ++ rest = '"' :: text ∧ readString text = some (s, rest) := by
  refine ⟨_, ?_, readString_escapeChars s rest⟩
  simp [toList_writeText]

/-- A text that was written is read where a text is wanted. -/
theorem textHere_writeText (wanted s : String) (rest : List Char) :
    textHere wanted ((writeText s).toList ++ rest) = .ok (s, rest) := by
  obtain ⟨text, written, read⟩ := readString_writeText s rest
  rw [textHere, written, skipBlanks_cons (by decide)]
  simp [read, wellFormed]

/-- A text that may be left out is read where such a text is wanted. -/
theorem optionalTextHere_compact (wanted : String) (t : Option String) (rest : List Char) :
    optionalTextHere wanted ((Value.ofText? t).compact.toList ++ rest) = .ok (t, rest) := by
  cases t with
  | none => simp [Value.ofText?, Value.compact, optionalTextHere, skipBlanks, isBlank, readScalar,
      wellFormed]
  | some s =>
    have text := textHere_writeText wanted s rest
    obtain ⟨_, written, -⟩ := readString_writeText s rest
    rw [Value.ofText?, Value.compact, optionalTextHere]
    rw [written] at text ⊢
    rw [skipBlanks_cons (by decide)]
    simp [text]

/-- A value is read back in the steps that are taken for the text. -/
theorem readValue_stepsFor (exact : v.IsExact) (deep : v.depth ≤ depth) (hrest : EndsValue rest) :
    readValue (stepsFor (v.compact.toList ++ rest)) depth (v.compact.toList ++ rest)
      = some (v, rest) := by
  refine readValue_compact v _ depth rest exact deep ?_ hrest
  simp only [stepsFor, List.length_append]
  omega

/-! ## Arrays -/

section Arrays

variable {α : Type} {element : Reading α} {encode : α → Value} {a : α} {as : List α}
  {text : List Char}

/-- An element in front of the closing bracket is the last one. -/
theorem elementsHere_last (first : element text = .ok (a, ']' :: rest)) :
    elementsHere element (steps + 1) text = .ok ([a], rest) := by
  rw [elementsHere, first]
  rfl

/-- An element in front of a comma is followed by others. -/
theorem elementsHere_more (first : element text = .ok (a, ',' :: more))
    (others : elementsHere element steps more = .ok (as, rest)) :
    elementsHere element (steps + 1) text = .ok (a :: as, rest) := by
  rw [elementsHere, first]
  simp only [bind, Except.bind, skipBlanks_cons (c := ',') (by decide), others]
  rfl

/-- Elements are decoded up to the closing bracket if each of them is.

**Proof sketch.** Induction on the elements: each is followed by a comma or, the last one, by the bracket, and
both end a value. -/
theorem elementsHere_compact (rest : List Char)
    (each : ∀ a ∈ as, ∀ rest, EndsValue rest →
      element ((encode a).compact.toList ++ rest) = .ok (a, rest)) :
    ∀ steps, as ≠ [] → as.length ≤ steps →
      elementsHere element steps ((compactElements (as.map encode)).toList ++ ']' :: rest)
        = .ok (as, rest) := by
  induction as with
  | nil =>
    intro _ nonempty
    exact absurd rfl nonempty
  | cons a as ih =>
    intro steps _ enough
    obtain ⟨steps, rfl⟩ := Nat.exists_eq_add_one_of_ne_zero (Nat.ne_zero_of_lt enough)
    cases as with
    | nil =>
      rw [List.map_singleton, compactElements]
      exact elementsHere_last (each a List.mem_cons_self _ (.inr (.inl rfl)))
    | cons b as =>
      have others := ih (fun c hc => each c (List.mem_cons_of_mem a hc)) steps
        (List.cons_ne_nil b as) (Nat.le_of_succ_le_succ enough)
      rw [List.map_cons, List.map_cons, Value.toList_compactElements_more, ← List.map_cons,
        List.append_assoc, List.cons_append]
      exact elementsHere_more (each a List.mem_cons_self _ (.inl rfl)) others

/-- Elements take no more steps than their text has characters. -/
theorem length_le_compactElements (vs : List Value) :
    vs.length ≤ (compactElements vs).toList.length + 1 := by
  induction vs with
  | nil => exact Nat.zero_le _
  | cons v vs ih =>
    cases vs with
    | nil => exact Nat.le_add_left _ _
    | cons w vs =>
      rw [Value.toList_compactElements_more]
      simp only [List.length_append, List.length_cons] at ih ⊢
      omega

/-- A list that is not empty is read element by element. -/
theorem listHere_elements {element : Nat → Reading α} {c : Char} (notBlank : isBlank c = false)
    (notEnd : c ≠ ']') :
    listHere element (depth + 1) ('[' :: c :: text)
      = elementsHere (element depth) ((c :: text).length + 1) (c :: text) := by
  unfold listHere
  simp only [skipBlanks_cons (c := '[') (by decide), skipBlanks_cons notBlank]
  split
  · simp_all
  · rfl

/-- An array is decoded if each of its elements is. -/
theorem listHere_compact {element : Nat → Reading α} (as : List α) (rest : List Char)
    (exact : ∀ a ∈ as, (encode a).IsExact)
    (each : ∀ a ∈ as, ∀ rest, EndsValue rest →
      element depth ((encode a).compact.toList ++ rest) = .ok (a, rest)) :
    listHere element (depth + 1) ((Value.array (as.map encode)).compact.toList ++ rest)
      = .ok (as, rest) := by
  rw [Value.toList_compact_array, List.cons_append, List.append_assoc, List.singleton_append]
  cases as with
  | nil => simp [listHere, compactElements, skipBlanks, isBlank]
  | cons a as =>
    have enough : (a :: as).length
        ≤ ((compactElements ((a :: as).map encode)).toList ++ ']' :: rest).length + 1 := by
      have := length_le_compactElements ((a :: as).map encode)
      rw [List.length_map] at this
      rw [List.length_append]
      omega
    have read := elementsHere_compact rest each _ (List.cons_ne_nil a as) enough
    obtain ⟨text, hvs⟩ := compactElements_eq_append (encode a) (as.map encode)
    obtain ⟨c, start, hv, notBlank, notEnd⟩ := Value.compact_eq_cons (exact a List.mem_cons_self)
    rw [List.map_cons, hvs, hv, List.append_assoc, List.cons_append] at read ⊢
    rw [listHere_elements notBlank notEnd, read]

end Arrays

/-! ## Sums -/

namespace Alternatives

variable {alts : Alternatives} {tag : String} {ms : List (String × Value)}

/-- Behind the tag, a member in front of the closing brace is the last one. -/
theorem membersHere_last (untagged : key ≠ tagKey)
    (hv : readValue (stepsFor more) depth more = some (v, '}' :: rest)) :
    alts.membersHere depth (steps + 1) (some tag) ((writeText key).toList ++ ':' :: more)
      = .ok ((tag, [(key, v)]), rest) := by
  obtain ⟨text, written, read⟩ := readString_writeText key (':' :: more)
  rw [written, membersHere, skipBlanks_cons (by decide)]
  simp [read, untagged, wellFormed, skipColon, hv, bind, Except.bind, skipBlanks, isBlank]
  rfl

/-- Behind the tag, a member in front of a comma is followed by others. -/
theorem membersHere_more {others : List Char} (untagged : key ≠ tagKey)
    (hv : readValue (stepsFor more) depth more = some (v, ',' :: others))
    (hms : alts.membersHere depth steps (some tag) others = .ok ((tag, ms), rest)) :
    alts.membersHere depth (steps + 1) (some tag) ((writeText key).toList ++ ':' :: more)
      = .ok ((tag, (key, v) :: ms), rest) := by
  obtain ⟨text, written, read⟩ := readString_writeText key (':' :: more)
  rw [written, membersHere, skipBlanks_cons (by decide)]
  simp [read, untagged, wellFormed, skipColon, hv, bind, Except.bind, skipBlanks, isBlank, hms]
  rfl

/-- The tag comes first, and is noted. -/
theorem membersHere_tag {others : List Char} (known : tag ∈ alts.names) :
    alts.membersHere depth (steps + 1) none
        ((writeText tagKey).toList ++ ':' :: ((writeText tag).toList ++ ',' :: others))
      = alts.membersHere depth steps (some tag) others := by
  obtain ⟨text, written, read⟩ := readString_writeText tagKey
    (':' :: ((writeText tag).toList ++ ',' :: others))
  have name := textHere_writeText tagTitle tag (',' :: others)
  rw [written, membersHere, skipBlanks_cons (by decide)]
  simp [read, wellFormed, skipColon, name, bind, Except.bind, skipBlanks, isBlank, named, known, shaped]

/-- The members behind the tag are read back up to the closing brace.

**Proof sketch.** By induction on the members, none of which has the key of the tag. Each of them is read into
the list, and the last one is followed by the closing brace. -/
theorem membersHere_compact (nonempty : ms ≠ []) (untagged : ∀ m ∈ ms, m.1 ≠ tagKey)
    (exact : Value.MembersExact ms) (deep : Value.membersDepth ms ≤ depth) :
    ∀ steps, ms.length ≤ steps →
      alts.membersHere depth steps (some tag) ((compactMembers ms).toList ++ '}' :: rest)
        = .ok ((tag, ms), rest) := by
  induction ms with
  | nil => exact absurd rfl nonempty
  | cons m ms ih =>
    obtain ⟨key, v⟩ := m
    intro steps enough
    obtain ⟨steps, rfl⟩ := Nat.exists_eq_add_one_of_ne_zero (Nat.ne_zero_of_lt enough)
    rw [Value.membersDepth, Nat.max_le] at deep
    rw [List.forall_mem_cons] at untagged
    cases ms with
    | nil =>
      rw [Value.toList_compactMembers_last, List.append_assoc, List.cons_append]
      exact membersHere_last untagged.1 (readValue_stepsFor exact.1 deep.1 (.inr (.inr rfl)))
    | cons w ms =>
      have others := ih (List.cons_ne_nil w ms) untagged.2 exact.2 deep.2 steps
        (Nat.le_of_succ_le_succ enough)
      rw [Value.toList_compactMembers_more, List.append_assoc, List.cons_append,
        List.append_assoc, List.cons_append]
      exact membersHere_more untagged.1 (readValue_stepsFor exact.1 deep.1 (.inl rfl)) others

/-- Members take no more steps than their text has characters. -/
theorem length_le_compactMembers (ms : List (String × Value)) :
    ms.length ≤ (compactMembers ms).toList.length := by
  induction ms with
  | nil => exact Nat.zero_le _
  | cons m ms ih =>
    obtain ⟨key, v⟩ := m
    cases ms with
    | nil =>
      rw [Value.toList_compactMembers_last]
      simp only [List.length_append, List.length_cons, List.length_nil]
      omega
    | cons w ms =>
      rw [Value.toList_compactMembers_more]
      simp only [List.length_append, List.length_cons] at ih ⊢
      omega

/-- A value in braces is split into its tag and its other members. -/
theorem splitHere_members {text : List Char}
    (h : alts.membersHere depth (('"' :: text).length + 1) none ('"' :: text) = .ok ((tag, ms), rest)) :
    alts.splitHere (depth + 1) ('{' :: '"' :: text) = .ok ((tag, .named ms), rest) := by
  unfold splitHere
  simp only [skipBlanks_cons (c := '{') (by decide), skipBlanks_cons (c := '"') (by decide)]
  split
  · simp_all
  · rw [h]
    rfl

/-- The tag that stands first is split off the other members of an object.

**Proof sketch.** The tag is the first member, so it is read before anything else and is known when the others
are; none of these has the key of the tag, so they are collected as they are. -/
theorem splitHere_compact (known : tag ∈ alts.names) (nonempty : ms ≠ [])
    (untagged : ∀ m ∈ ms, m.1 ≠ tagKey) (exact : Value.MembersExact ms)
    (deep : Value.membersDepth ms ≤ depth) (rest : List Char) :
    alts.splitHere (depth + 1) ((Value.object ((tagKey, .text tag) :: ms)).compact.toList ++ rest)
      = .ok ((tag, .named ms), rest) := by
  obtain ⟨text, start⟩ := compactMembers_eq_cons (tagKey, .text tag) ms
  have written : (compactMembers ((tagKey, .text tag) :: ms)).toList ++ '}' :: rest
      = (writeText tagKey).toList
        ++ ':' :: ((writeText tag).toList ++ ',' :: ((compactMembers ms).toList ++ '}' :: rest)) := by
    obtain ⟨m, others, rfl⟩ := List.exists_cons_of_ne_nil nonempty
    rw [Value.toList_compactMembers_more, Value.compact]
    simp only [List.append_assoc, List.cons_append]
  have enough : ms.length ≤ ('"' :: text ++ '}' :: rest).length := by
    have bound := length_le_compactMembers ((tagKey, .text tag) :: ms)
    rw [start, List.length_cons] at bound
    rw [List.length_append]
    omega
  have members : ∀ steps, ms.length ≤ steps →
      alts.membersHere depth (steps + 1) none ('"' :: text ++ '}' :: rest) = .ok ((tag, ms), rest) := by
    intro steps enough
    rw [← start, written, membersHere_tag known]
    exact membersHere_compact nonempty untagged exact deep steps enough
  rw [Value.toList_compact_object, List.cons_append, List.append_assoc, List.singleton_append, start]
  exact splitHere_members (members _ enough)

end Alternatives

end ProgramGraph.Json
