import Mathlib.Tactic.Common
import ProgramGraph.Toml.Quoting

set_option autoImplicit false

/-!
# Reading back quoted texts

A text is written in one of four forms, according to the quotes, backslashes, line ends and hidden
characters in it. Each form is read back as the text, if no quote follows. Between three quotes there
may be quotes at the end of the text, which stand right before the three that end it; a reader that
takes the first three of them for the end puts the others back.

## Main definitions

* `ProgramGraph.Toml.EndsQuoted` — what may follow a text in quotes.

## Main results

* `ProgramGraph.Toml.readLongBasic_escapeLongFrom`, `ProgramGraph.Toml.readLongLiteral_append` — texts
  between three quotes.
* `ProgramGraph.Toml.readQuoted_write` — the form that is chosen for a text is read back as the text.
* `ProgramGraph.Toml.notMem_write` — it has no line end of two characters in it.
-/

namespace ProgramGraph.Toml

variable {s rest text : List Char} {c : Char} {seen steps : Nat}

/-- What may follow a text in quotes: no other quote. -/
def EndsQuoted (rest : List Char) : Prop := rest.head? ≠ some '"' ∧ rest.head? ≠ some '\''

/-! ## Lengths -/

/-- Every character is written somehow. -/
theorem length_escapeChar_pos (c : Char) : 1 ≤ (escapeChar c).length := by
  unfold escapeChar
  split <;> first | simp | (split <;> simp)

/-- Escapes make a text no shorter. -/
theorem length_le_escapeBasic (s : List Char) : s.length ≤ (escapeBasic s).length := by
  induction s with
  | nil => simp
  | cons c s ih =>
    have hc := length_escapeChar_pos c
    simp only [escapeBasic, List.flatMap_cons, List.length_append, List.length_cons] at ih ⊢
    split
    · simp only [List.length_cons, List.length_nil]; omega
    · split
      · simp only [List.length_cons, List.length_nil]; omega
      · omega

/-- A text is no longer than what is written for it. -/
theorem length_le_escapeLongFrom (seen : Nat) (s : List Char) :
    s.length ≤ (escapeLongFrom seen s).length := by
  induction s generalizing seen with
  | nil => simp
  | cons c s ih =>
    have hc := length_escapeChar_pos c
    have hrest := ih 0
    have hnext := ih (seen + 1)
    simp only [escapeLongFrom]
    split_ifs <;> simp only [List.length_append, List.length_cons] <;> omega

/-! ## The first characters -/

/-- What a character is written as begins with a quote only if it is one. -/
theorem head?_escapeChar_append {mark : Char} (hmark : mark ≠ '\\') (hc : c ≠ mark) (text : List Char) :
    (escapeChar c ++ text).head? ≠ some mark := by
  unfold escapeChar
  split <;> first
    | simpa using Ne.symm hmark
    | (split <;> first | simpa using Ne.symm hmark | simpa using hc)

/-- What a text is written as between three quotes begins with a quote only if the text is empty, or
begins with a quote that is not the third one in a row. -/
theorem head?_escapeLongFrom_append (h : c ≠ '"' ∨ seen = 2) (text : List Char) :
    (escapeLongFrom seen (c :: s) ++ text).head? ≠ some '"' := by
  simp only [escapeLongFrom]
  split_ifs with hquote htwo hline
  · simp
  · exact absurd h (by simp [hquote, htwo])
  · simp
  · rw [List.append_assoc]
    exact head?_escapeChar_append (by decide) hquote _

/-! ## Between three double quotes -/

/-- Up to two quotes behind the three that end a text belong to the text. -/
theorem trailingQuotes_replicate {mark : Char} {k : Nat} (hk : k ≤ 2) (hrest : rest.head? ≠ some mark) :
    trailingQuotes mark (List.replicate k mark ++ rest) = (List.replicate k mark, rest) := by
  have hnone : ∀ tail, rest ≠ mark :: tail := fun tail heq => hrest (by rw [heq]; rfl)
  match k, hk with
  | 0, _ =>
    match rest, hnone with
    | [], _ => rfl
    | [a], hnone =>
      have ha : a ≠ mark := fun heq => hnone [] (by rw [heq])
      simp [trailingQuotes, ha]
    | a :: b :: tail, hnone =>
      have ha : a ≠ mark := fun heq => hnone (b :: tail) (by rw [heq])
      simp [trailingQuotes, ha]
  | 1, _ =>
    match rest, hnone with
    | [], _ => simp [trailingQuotes]
    | a :: tail, hnone =>
      have ha : a ≠ mark := fun heq => hnone tail (by rw [heq])
      simp [trailingQuotes, ha]
  | 2, _ => simp [trailingQuotes]

/-- A character that stands for itself, and is not the first of three quotes. -/
theorem readLongBasic_cons (hc : isPlain c = true ∨ c = '\n') (hslash : c ≠ '\\')
    (hmark : c = '"' → ∀ tail, text ≠ '"' :: '"' :: tail) (steps : Nat) :
    readLongBasic (steps + 1) (c :: text) =
      (readLongBasic steps text).map fun (cs, rest) => (c :: cs, rest) := by
  have hplain : (isPlain c || decide (c = '\n')) = true := by simpa using hc
  rw [readLongBasic.eq_def]
  split
  · next heq => cases heq
  · next heq => cases heq
  · next heq =>
    obtain ⟨rfl, rfl⟩ := List.cons.inj heq
    exact absurd rfl (hmark rfl _)
  · next heq => exact absurd (List.cons.inj heq).1 hslash
  · next heq =>
    obtain ⟨rfl, rfl⟩ := List.cons.inj heq
    obtain rfl := Nat.succ.inj ‹_›
    rw [if_pos hplain, Option.map_eq_bind]
    rfl

/-- An escape is read as what it stands for, unless it is a backslash at the end of a line. -/
theorem readLongBasic_backslash (hends : endsLine text = false) (hescape : readEscape text = some (c, rest))
    (steps : Nat) : readLongBasic (steps + 1) ('\\' :: text) =
      (readLongBasic steps rest).map fun (cs, rest) => (c :: cs, rest) := by
  rw [readLongBasic.eq_def]
  simp only [hends, hescape, bind, Option.bind, Bool.false_eq_true, if_false]
  cases readLongBasic steps rest <;> rfl

/-- The escape of a character is read back as the character. -/
theorem readLongBasic_escapeChar (quote : c ≠ '"') (line : c ≠ '\n') (steps : Nat) (text : List Char) :
    readLongBasic (steps + 1) (escapeChar c ++ text) =
      (readLongBasic steps text).map fun (cs, rest) => (c :: cs, rest) := by
  unfold escapeChar
  split
  · exact readLongBasic_backslash rfl rfl steps
  · exact readLongBasic_backslash rfl rfl steps
  · exact readLongBasic_backslash rfl rfl steps
  · exact readLongBasic_backslash rfl rfl steps
  · exact readLongBasic_backslash rfl rfl steps
  · next h₁ h₂ h₃ h₄ h₅ =>
    split
    · next h => exact readLongBasic_backslash rfl (readEscape_number h text) steps
    · next h =>
      have hplain : isPlain c = true := by simpa [isHidden, line] using h
      exact readLongBasic_cons (Or.inl hplain) h₅ (fun hquote => absurd hquote quote) steps

/-- Three quotes end a text, and up to two quotes behind them belong to it. -/
theorem readLongBasic_replicate {k : Nat} (hk : k ≤ 2) (hrest : rest.head? ≠ some '"') (steps : Nat) :
    readLongBasic (steps + 1) (List.replicate k '"' ++ (longMark ++ rest)) =
      some (List.replicate k '"', rest) := by
  have hmarks : List.replicate k '"' ++ (longMark ++ rest) =
      '"' :: '"' :: '"' :: (List.replicate k '"' ++ rest) := by
    match k, hk with
    | 0, _ | 1, _ | 2, _ => rfl
  rw [hmarks, readLongBasic, trailingQuotes_replicate hk hrest]

/-- Behind a quote there are two more only where nothing but quotes is left of the text, and these are
few. -/
theorem eq_replicate_of_quotes_ahead (hpos : 1 ≤ seen) (hseen : seen ≤ 2) {tail : List Char}
    (h : escapeLongFrom seen s ++ (longMark ++ rest) = '"' :: '"' :: tail) :
    ∃ k, k + seen ≤ 2 ∧ s = List.replicate k '"' ∧ escapeLongFrom seen s = List.replicate k '"' := by
  match s with
  | [] => exact ⟨0, by omega, rfl, rfl⟩
  | c :: s =>
    obtain ⟨rfl, hone⟩ : c = '"' ∧ seen ≠ 2 := by
      by_contra hne
      refine head?_escapeLongFrom_append (s := s) ?_ (longMark ++ rest) (by rw [h]; rfl)
      exact not_and_or.mp hne |>.imp_right not_not.mp
    obtain rfl : seen = 1 := by omega
    have hwritten : escapeLongFrom 1 ('"' :: s) = '"' :: escapeLongFrom 2 s := by simp [escapeLongFrom]
    rw [hwritten] at h ⊢
    match s with
    | [] => exact ⟨1, by omega, rfl, rfl⟩
    | d :: s =>
      exact absurd (congrArg List.head? (List.cons.inj h).2) (head?_escapeLongFrom_append (Or.inr rfl) _)

/-- **A text between three double quotes is read back.** The induction is on the text, behind `seen`
quotes that have been read already; so there are never three quotes ahead, unless nothing but quotes is
left of the text.

**Proof sketch.** A quote is escaped where two were written before it, so that no three come together inside
the text. Only at the end of the text may quotes be followed by those of the mark, and then the text is
nothing but quotes from there on, which is read back at once. -/
theorem readLongBasic_escapeLongFrom (hrest : rest.head? ≠ some '"') (hseen : seen ≤ 2)
    (hsteps : s.length < steps) :
    readLongBasic steps (escapeLongFrom seen s ++ (longMark ++ rest)) = some (s, rest) := by
  induction s generalizing seen steps with
  | nil =>
    obtain ⟨n, rfl⟩ := Nat.exists_eq_add_one_of_ne_zero (Nat.ne_of_gt hsteps)
    exact readLongBasic_replicate (k := 0) (by decide) hrest n
  | cons c s ih =>
    obtain ⟨n, rfl⟩ := Nat.exists_eq_add_one_of_ne_zero (Nat.ne_of_gt (Nat.zero_lt_of_lt hsteps))
    have hn : s.length < n := by simpa using hsteps
    simp only [escapeLongFrom]
    split_ifs with hquote htwo hline
    · rw [List.cons_append, List.cons_append, readLongBasic_backslash rfl rfl, ih (by decide) hn, hquote]
      rfl
    · subst hquote
      by_cases hthree : ∃ tail, escapeLongFrom (seen + 1) s ++ (longMark ++ rest) = '"' :: '"' :: tail
      · obtain ⟨tail, htail⟩ := hthree
        obtain ⟨k, hk, hs, hwritten⟩ := eq_replicate_of_quotes_ahead (by omega) (by omega) htail
        rw [hwritten, hs]
        exact readLongBasic_replicate (k := k + 1) (by omega) hrest n
      · rw [List.cons_append, readLongBasic_cons (Or.inl (by decide)) (by decide)
          (fun _ tail htail => hthree ⟨tail, htail⟩), ih (by omega) hn]
        rfl
    · subst hline
      rw [List.cons_append, readLongBasic_cons (Or.inr rfl) (by decide) (fun h => absurd h hquote),
        ih (by decide) hn]
      rfl
    · rw [List.append_assoc, readLongBasic_escapeChar hquote hline, ih (by decide) hn]
      rfl

/-! ## Between three single quotes -/

/-- A character that stands for itself, and is not the first of three quotes. -/
theorem readLongLiteral_cons (hc : isPlain c = true ∨ c = '\n')
    (hmark : c = '\'' → ∀ tail, text ≠ '\'' :: '\'' :: tail) :
    readLongLiteral (c :: text) = (readLongLiteral text).map fun (cs, rest) => (c :: cs, rest) := by
  have hplain : (isPlain c || decide (c = '\n')) = true := by simpa using hc
  rw [readLongLiteral.eq_def]
  split
  · next heq => cases heq
  · next heq =>
    obtain ⟨rfl, rfl⟩ := List.cons.inj heq
    exact absurd rfl (hmark rfl _)
  · next heq =>
    obtain ⟨rfl, rfl⟩ := List.cons.inj heq
    rw [if_pos hplain]
    cases readLongLiteral text <;> rfl

/-- Three quotes end a text, and up to two quotes behind them belong to it. -/
theorem readLongLiteral_replicate {k : Nat} (hk : k ≤ 2) (hrest : rest.head? ≠ some '\'') :
    readLongLiteral (List.replicate k '\'' ++ (longLiteralMark ++ rest)) =
      some (List.replicate k '\'', rest) := by
  have hmarks : List.replicate k '\'' ++ (longLiteralMark ++ rest) =
      '\'' :: '\'' :: '\'' :: (List.replicate k '\'' ++ rest) := by
    match k, hk with
    | 0, _ | 1, _ | 2, _ => rfl
  rw [hmarks, readLongLiteral, trailingQuotes_replicate hk hrest]

/-- What was seen of a run counts. -/
theorem le_longestRunFrom (mark : Char) (seen : Nat) (s : List Char) :
    seen ≤ longestRunFrom mark seen s := by
  induction s generalizing seen with
  | nil => exact Nat.le_refl seen
  | cons c s ih =>
    simp only [longestRunFrom]
    split
    · exact Nat.le_of_succ_le (ih (seen + 1))
    · exact Nat.le_max_left _ _

/-- Behind a quote there are two more only where nothing but quotes is left of the text, and these are
few. -/
theorem eq_replicate_of_singles_ahead (hpos : 1 ≤ seen) (hrun : longestRunFrom '\'' seen s ≤ 2)
    {tail : List Char} (h : s ++ (longLiteralMark ++ rest) = '\'' :: '\'' :: tail) :
    ∃ k, k + seen ≤ 2 ∧ s = List.replicate k '\'' := by
  match s with
  | [] => exact ⟨0, by simpa [longestRunFrom] using hrun, rfl⟩
  | c :: s =>
    obtain ⟨rfl, htail⟩ := List.cons.inj h
    simp only [longestRunFrom, if_true] at hrun
    have hle := le_longestRunFrom '\'' (seen + 1) s
    match s with
    | [] => exact ⟨1, by omega, rfl⟩
    | d :: s =>
      obtain ⟨rfl, htail'⟩ := List.cons.inj htail
      simp only [longestRunFrom, if_true] at hrun
      have hle := le_longestRunFrom '\'' (seen + 1 + 1) s
      omega

/-- **A text between three single quotes is read back,** if there are no three of them in a row in it. The
induction is on the text, behind `seen` quotes that have been read already. -/
theorem readLongLiteral_append (hs : ∀ c ∈ s, isPlain c = true ∨ c = '\n')
    (hrun : longestRunFrom '\'' seen s ≤ 2) (hrest : rest.head? ≠ some '\'') :
    readLongLiteral (s ++ (longLiteralMark ++ rest)) = some (s, rest) := by
  induction s generalizing seen with
  | nil => exact readLongLiteral_replicate (k := 0) (by decide) hrest
  | cons c s ih =>
    obtain ⟨hc, hmore⟩ := List.forall_mem_cons.mp hs
    simp only [longestRunFrom] at hrun
    split_ifs at hrun with hquote
    · subst hquote
      by_cases hthree : ∃ tail, s ++ (longLiteralMark ++ rest) = '\'' :: '\'' :: tail
      · obtain ⟨tail, htail⟩ := hthree
        obtain ⟨k, hk, rfl⟩ := eq_replicate_of_singles_ahead (by omega) hrun htail
        exact readLongLiteral_replicate (k := k + 1) (by omega) hrest
      · rw [List.cons_append, readLongLiteral_cons hc (fun _ tail htail => hthree ⟨tail, htail⟩),
          ih hmore hrun]
        rfl
    · rw [List.cons_append, readLongLiteral_cons hc (fun h => absurd h hquote),
        ih hmore (Nat.le_trans (Nat.le_max_right _ _) hrun)]
      rfl

/-! ## Forms -/

/-- A text without a run of a character does not hold it. -/
theorem notMem_of_longestRunFrom {mark : Char} (h : longestRunFrom mark 0 s = 0) : mark ∉ s := by
  induction s with
  | nil => exact List.not_mem_nil
  | cons c s ih =>
    simp only [longestRunFrom] at h
    split_ifs at h with hc
    · have hle := le_longestRunFrom mark (0 + 1) s
      omega
    · rw [Nat.zero_max] at h
      exact fun hmem => (List.mem_cons.mp hmem).elim (Ne.symm hc) (ih h)

/-- A line end behind the quotes that begin a text is left out again. -/
theorem skipLineEnd_leadingLineEnd (h : s.contains '\n' = false → text.head? ≠ some '\n') :
    skipLineEnd (leadingLineEnd s ++ text) = text := by
  unfold leadingLineEnd
  split
  · rfl
  · next hline =>
    have hhead := h (by simpa using hline)
    match text, hhead with
    | [], _ => rfl
    | c :: text, hhead =>
      have hc : c ≠ '\n' := fun heq => hhead (by rw [heq]; rfl)
      rw [List.nil_append, skipLineEnd.eq_def]
      split
      · next heq => exact absurd (List.cons.inj heq).1 hc
      · rfl

/-- What a form needs of a text to be read back as the text. -/
def Form.Fits (s : List Char) : Form → Prop
  | .basic | .longBasic => True
  | .literal => ∀ c ∈ s, isPlain c = true ∧ c ≠ '\''
  | .longLiteral => (∀ c ∈ s, isPlain c = true ∨ c = '\n') ∧ longestRun '\'' s ≤ 2

/-- **The form that is chosen for a text** fits it. -/
theorem fits_formFor (s : List Char) : (formFor s).Fits s := by
  have hplain : s.any isHidden = false → ∀ c ∈ s, isPlain c = true ∨ c = '\n' := by
    intro h c hc
    have hshown := List.any_eq_false.mp h c hc
    by_cases hline : c = '\n'
    · exact Or.inr hline
    · exact Or.inl (by simpa [isHidden, hline] using hshown)
  simp only [formFor]
  split_ifs with hhidden hlong h₃ h₄ h₅ h₆ h₇ <;> try trivial
  · -- one line without single quotes
    simp only [Bool.and_eq_true, Bool.not_eq_true', decide_eq_true_eq] at h₄
    obtain ⟨hline, hsingles⟩ := h₄
    intro c hc
    refine ⟨(hplain (by simpa using hhidden) c hc).resolve_right ?_, ?_⟩
    · rintro rfl
      rw [List.contains_iff_mem.mpr hc] at hline
      cases hline
    · rintro rfl
      exact notMem_of_longestRunFrom hsingles hc
  · exact ⟨hplain (by simpa using hhidden), h₆⟩

/-- A double quote without two more behind it begins a text on one line. -/
theorem readQuoted_double (h : ∀ tail, text ≠ '"' :: '"' :: tail) :
    readQuoted ('"' :: text) = readBasic (text.length + 1) text := by
  rw [readQuoted.eq_def]
  split
  · next heq => exact absurd (List.cons.inj heq).2 (h _)
  · next heq => cases (List.cons.inj heq).1
  · rfl

/-- A single quote without two more behind it begins a text on one line. -/
theorem readQuoted_single (h : ∀ tail, text ≠ '\'' :: '\'' :: tail) :
    readQuoted ('\'' :: text) = readLiteral text := by
  rw [readQuoted.eq_def]
  split
  · next heq => cases (List.cons.inj heq).1
  · next heq => exact absurd (List.cons.inj heq).2 (h _)
  · rfl

/-- What a text is written as between double quotes does not begin with one. -/
theorem head?_escapeBasic_append (text : List Char) :
    (escapeBasic (c :: s) ++ text).head? ≠ some '"' := by
  simp only [escapeBasic, List.flatMap_cons]
  split_ifs with hquote hline
  · simp
  · simp
  · rw [List.append_assoc]
    exact head?_escapeChar_append (by decide) hquote _

/-- **A text in a form that fits it is read back as the text.**

**Proof sketch.** One case for each form, by the lemma that undoes its escapes. What is left to show is that
the opening mark is not taken for a longer one, which is a question of the first character of the text, or of
the rest if the text is empty. -/
theorem readQuoted_write {form : Form} (h : form.Fits s) (hrest : EndsQuoted rest) :
    readQuoted (form.write s ++ rest) = some (s, rest) := by
  cases form with
  | basic =>
    have htext : Form.basic.write s ++ rest = '"' :: (escapeBasic s ++ '"' :: rest) := by
      simp [Form.write]
    have hlength := length_le_escapeBasic s
    rw [htext, readQuoted_double, readBasic_escapeBasic]
    · simp only [List.length_append, List.length_cons]
      omega
    · intro tail htail
      match s with
      | [] => exact hrest.1 (congrArg List.head? (List.cons.inj htail).2)
      | c :: s => exact head?_escapeBasic_append _ (congrArg List.head? htail)
  | literal =>
    have htext : Form.literal.write s ++ rest = '\'' :: (s ++ '\'' :: rest) := by
      simp [Form.write]
    rw [htext, readQuoted_single, readLiteral_append h]
    intro tail htail
    match s with
    | [] => exact hrest.2 (congrArg List.head? (List.cons.inj htail).2)
    | c :: s => exact (h c List.mem_cons_self).2 (List.cons.inj htail).1
  | longBasic =>
    have htext : Form.longBasic.write s ++ rest = '"' :: '"' :: '"' ::
        (leadingLineEnd s ++ (escapeLongFrom 0 s ++ (longMark ++ rest))) := by
      simp [Form.write, longMark]
    have hlength := length_le_escapeLongFrom 0 s
    rw [htext, readQuoted, skipLineEnd_leadingLineEnd, readLongBasic_escapeLongFrom hrest.1 (by decide)]
    · simp only [List.length_append]
      omega
    · intro hline
      match s with
      | [] => simp [escapeLongFrom, longMark]
      | c :: s =>
        have hc : c ≠ '\n' := by
          rintro rfl
          simp at hline
        simp only [escapeLongFrom]
        split_ifs
        · simp
        · simp
        · rw [List.append_assoc]
          exact head?_escapeChar_append (by decide) hc _
  | longLiteral =>
    have htext : Form.longLiteral.write s ++ rest = '\'' :: '\'' :: '\'' ::
        (leadingLineEnd s ++ (s ++ (longLiteralMark ++ rest))) := by
      simp [Form.write, longLiteralMark]
    rw [htext, readQuoted, skipLineEnd_leadingLineEnd, readLongLiteral_append h.1 h.2 hrest.2]
    intro hline
    match s with
    | [] => simp [longLiteralMark]
    | c :: s =>
      rintro heq
      obtain rfl : c = '\n' := Option.some.inj heq
      simp at hline

/-! ## Characters of a form -/

/-- A form begins with a quote. -/
theorem exists_write_eq_cons (form : Form) (s : List Char) :
    ∃ mark tail, form.write s = mark :: tail ∧ (mark = '"' ∨ mark = '\'') := by
  cases form with
  | basic => exact ⟨_, _, rfl, Or.inl rfl⟩
  | literal => exact ⟨_, _, rfl, Or.inr rfl⟩
  | longBasic => exact ⟨_, _, rfl, Or.inl rfl⟩
  | longLiteral => exact ⟨_, _, rfl, Or.inr rfl⟩

/-- A carriage return is only written by its letter. -/
theorem notMem_escapeChar (c : Char) : '\r' ∉ escapeChar c := by
  unfold escapeChar
  split <;> try decide
  next h₁ h₂ h₃ h₄ h₅ =>
  split
  · next h =>
    have hdigits : ∀ n < 128, '\r' ≠ upperHexDigit (n / 16) ∧ '\r' ≠ upperHexDigit (n % 16) := by decide
    obtain ⟨hhigh, hlow⟩ := hdigits _ (toNat_lt_of_isHidden h)
    simp [hhigh, hlow]
  · simpa using fun heq => h₄ heq.symm

/-- No carriage return is left in a long text, since it is escaped. -/
theorem notMem_escapeLongFrom (seen : Nat) (s : List Char) : '\r' ∉ escapeLongFrom seen s := by
  induction s generalizing seen with
  | nil => exact List.not_mem_nil
  | cons c s ih =>
    simp only [escapeLongFrom]
    split_ifs <;> simp [ih, notMem_escapeChar]

/-- **A text in a form that fits it** has no carriage return in it. -/
theorem notMem_write {form : Form} (h : form.Fits s) : '\r' ∉ form.write s := by
  have hlead : '\r' ∉ leadingLineEnd s := by
    unfold leadingLineEnd
    split <;> simp
  cases form with
  | basic =>
    have hs : '\r' ∉ escapeBasic s := by
      simp only [escapeBasic, List.mem_flatMap, not_exists, not_and]
      intro c _
      split_ifs <;> simp [notMem_escapeChar]
    simp [Form.write, hs]
  | literal =>
    have hs : '\r' ∉ s := fun hmem => absurd (h _ hmem).1 (by decide)
    simp [Form.write, hs]
  | longBasic => simp [Form.write, hlead, notMem_escapeLongFrom, longMark]
  | longLiteral =>
    have hs : '\r' ∉ s := fun hmem => absurd (h.1 _ hmem) (by decide)
    simp [Form.write, hlead, hs, longLiteralMark]

end ProgramGraph.Toml
