import ProgramGraph.Text.Hexadecimal

set_option autoImplicit false

/-!
# Quoted texts

A text is written in one of four forms. Between double quotes there are escapes, between single
quotes there are none; between three quotes of either sort there may be line ends. Of the forms
that show a text as it is, the shortest is chosen, and if there is none, the text is escaped.

Reading undoes the escapes. A line end right behind three quotes does not count, and neither do a
backslash at the end of a line and the blanks and line ends that follow it.

## Main definitions

* `ProgramGraph.Toml.Form` — the four forms, and `ProgramGraph.Toml.formFor`, the one for a text.
* `ProgramGraph.Toml.quote` — a text in its form.
* `ProgramGraph.Toml.readQuoted` — the text in quotes at the start of another one, and the rest.

## Main results

* `ProgramGraph.Toml.readBasic_escapeBasic` — reading undoes the escapes.
-/

namespace ProgramGraph.Toml

/-! ## Characters -/

/-- The blanks within a line. -/
def isBlank (c : Char) : Bool := c = ' ' || c = '\t'

/-- Whether a character may stand in comments and quoted texts as it is. -/
def isPlain (c : Char) : Bool := c = '\t' || (' ' ≤ c && c ≠ '\x7f')

/-- Whether a character can only be written by its number or its letter. -/
def isHidden (c : Char) : Bool := !isPlain c && c ≠ '\n'

/-- The digit for a number below sixteen, in upper case. -/
def upperHexDigit (n : Nat) : Char := (Text.hexDigit n).toUpper

/-- A character other than a quote and a line end, with its escape. -/
def escapeChar (c : Char) : List Char :=
  match c with
  | '\x08' => ['\\', 'b']
  | '\t' => ['\\', 't']
  | '\x0c' => ['\\', 'f']
  | '\r' => ['\\', 'r']
  | '\\' => ['\\', '\\']
  | c =>
    if isHidden c then
      ['\\', 'u', '0', '0', upperHexDigit (c.toNat / 16), upperHexDigit (c.toNat % 16)]
    else [c]

/-! ## Writing -/

/-- How a text is written. -/
inductive Form where
  /-- Between double quotes. -/
  | basic
  /-- Between single quotes. -/
  | literal
  /-- Between three double quotes. -/
  | longBasic
  /-- Between three single quotes. -/
  | longLiteral
deriving DecidableEq, Repr

/-- The length of the longest run of a character, where `seen` of them stand before the text. -/
def longestRunFrom (mark : Char) (seen : Nat) : List Char → Nat
  | [] => seen
  | c :: rest =>
    if c = mark then longestRunFrom mark (seen + 1) rest
    else max seen (longestRunFrom mark 0 rest)

/-- The length of the longest run of a character. -/
def longestRun (mark : Char) (text : List Char) : Nat := longestRunFrom mark 0 text

/-- The form for a text. -/
def formFor (text : List Char) : Form :=
  let long := text.contains '\n'
  let doubles := longestRun '"' text
  let singles := longestRun '\'' text
  if text.any isHidden then (if long then .longBasic else .basic)
  else if !long && !text.contains '\\' && doubles = 0 then .basic
  else if !long && singles = 0 then .literal
  else if !text.contains '\\' && doubles ≤ 2 then .longBasic
  else if singles ≤ 2 then .longLiteral
  else if long then .longBasic
  else .basic

/-- The characters of a text between double quotes. -/
def escapeBasic (text : List Char) : List Char :=
  text.flatMap fun c =>
    if c = '"' then ['\\', '"'] else if c = '\n' then ['\\', 'n'] else escapeChar c

/-- The characters of a text between three double quotes, behind `seen` double quotes. Of three in
a row the last one is escaped. -/
def escapeLongFrom (seen : Nat) : List Char → List Char
  | [] => []
  | c :: rest =>
    if c = '"' then
      if seen = 2 then '\\' :: '"' :: escapeLongFrom 0 rest
      else '"' :: escapeLongFrom (seen + 1) rest
    else if c = '\n' then '\n' :: escapeLongFrom 0 rest
    else escapeChar c ++ escapeLongFrom 0 rest

/-- The line end with which a text of several lines begins behind its quotes. -/
def leadingLineEnd (text : List Char) : List Char := if text.contains '\n' then ['\n'] else []

/-- Three double quotes. -/
def longMark : List Char := ['"', '"', '"']

/-- Three single quotes. -/
def longLiteralMark : List Char := ['\'', '\'', '\'']

/-- The characters of a text in a form. -/
def Form.write (form : Form) (text : List Char) : List Char :=
  match form with
  | .basic => ['"'] ++ escapeBasic text ++ ['"']
  | .literal => ['\''] ++ text ++ ['\'']
  | .longBasic => longMark ++ leadingLineEnd text ++ escapeLongFrom 0 text ++ longMark
  | .longLiteral => longLiteralMark ++ leadingLineEnd text ++ text ++ longLiteralMark

/-- A text in its form. -/
def quote (text : String) : String :=
  String.ofList ((formFor text.toList).write text.toList)

/-! ## Reading -/

/-- The character with a number, unless that is half of a surrogate pair or too large. -/
def charOf? (n : Nat) : Option Char := if n.isValidChar then some (Char.ofNat n) else none

/-- The character of an escape, from behind the backslash on. -/
def readEscape : List Char → Option (Char × List Char)
  | 'b' :: rest => some ('\x08', rest)
  | 't' :: rest => some ('\t', rest)
  | 'n' :: rest => some ('\n', rest)
  | 'f' :: rest => some ('\x0c', rest)
  | 'r' :: rest => some ('\r', rest)
  | '"' :: rest => some ('"', rest)
  | '\\' :: rest => some ('\\', rest)
  | 'u' :: rest => do
    let (n, rest) ← Text.readHex 4 rest
    return (← charOf? n, rest)
  | 'U' :: rest => do
    let (n, rest) ← Text.readHex 8 rest
    return (← charOf? n, rest)
  | _ => none

/-- The characters from behind a double quote on, in at most `steps` steps. -/
def readBasic : Nat → List Char → Option (List Char × List Char)
  | 0, _ => none
  | _ + 1, [] => none
  | _ + 1, '"' :: rest => some ([], rest)
  | steps + 1, '\\' :: rest => do
    let (c, rest) ← readEscape rest
    let (cs, rest) ← readBasic steps rest
    return (c :: cs, rest)
  | steps + 1, c :: rest =>
    if isPlain c then do
      let (cs, rest) ← readBasic steps rest
      return (c :: cs, rest)
    else none

/-- The characters from behind a single quote on. -/
def readLiteral : List Char → Option (List Char × List Char)
  | [] => none
  | '\'' :: rest => some ([], rest)
  | c :: rest =>
    if isPlain c then do
      let (cs, rest) ← readLiteral rest
      return (c :: cs, rest)
    else none

/-- Up to two quotes at the start of a text. They stand behind three quotes that end a text, and
belong to it. -/
def trailingQuotes (mark : Char) : List Char → List Char × List Char
  | a :: b :: rest =>
    if a = mark && b = mark then ([a, b], rest)
    else if a = mark then ([a], b :: rest)
    else ([], a :: b :: rest)
  | [a] => if a = mark then ([a], []) else ([], [a])
  | [] => ([], [])

/-- Whether nothing but blanks stands before the end of the line. -/
def endsLine (text : List Char) : Bool := (text.dropWhile isBlank).head? == some '\n'

/-- The characters from behind three double quotes on, in at most `steps` steps. -/
def readLongBasic : Nat → List Char → Option (List Char × List Char)
  | 0, _ => none
  | _ + 1, [] => none
  | _ + 1, '"' :: '"' :: '"' :: rest => some (trailingQuotes '"' rest)
  | steps + 1, '\\' :: rest =>
    if endsLine rest then
      readLongBasic steps (rest.dropWhile fun c => isBlank c || c = '\n')
    else do
      let (c, rest) ← readEscape rest
      let (cs, rest) ← readLongBasic steps rest
      return (c :: cs, rest)
  | steps + 1, c :: rest =>
    if isPlain c || c = '\n' then do
      let (cs, rest) ← readLongBasic steps rest
      return (c :: cs, rest)
    else none

/-- The characters from behind three single quotes on. -/
def readLongLiteral : List Char → Option (List Char × List Char)
  | [] => none
  | '\'' :: '\'' :: '\'' :: rest => some (trailingQuotes '\'' rest)
  | c :: rest =>
    if isPlain c || c = '\n' then do
      let (cs, rest) ← readLongLiteral rest
      return (c :: cs, rest)
    else none

/-- A text without a line end at its start. -/
def skipLineEnd : List Char → List Char
  | '\n' :: rest => rest
  | text => text

/-- The text in single or double quotes on one line at the start of another one, and the rest. -/
def readShortQuoted : List Char → Option (List Char × List Char)
  | '"' :: rest => readBasic (rest.length + 1) rest
  | '\'' :: rest => readLiteral rest
  | _ => none

/-- The text in quotes at the start of another one, and the rest. -/
def readQuoted : List Char → Option (List Char × List Char)
  | '"' :: '"' :: '"' :: rest => readLongBasic (rest.length + 1) (skipLineEnd rest)
  | '\'' :: '\'' :: '\'' :: rest => readLongLiteral (skipLineEnd rest)
  | text => readShortQuoted text

/-! ## Reading what was written -/

/-- Reading up to the closing quote undoes writing without escapes. -/
theorem readLiteral_append {s : List Char} (h : ∀ c ∈ s, isPlain c = true ∧ c ≠ '\'')
    (rest : List Char) : readLiteral (s ++ '\'' :: rest) = some (s, rest) := by
  induction s with
  | nil => rfl
  | cons c s ih =>
    obtain ⟨hc, hs⟩ := List.forall_mem_cons.1 h
    simp [readLiteral, hc.1, hc.2, ih hs]

/-- Hidden characters are among the first 128. -/
theorem toNat_lt_of_isHidden {c : Char} (h : isHidden c = true) : c.toNat < 128 := by
  simp only [isHidden, isPlain, Bool.and_eq_true, Bool.not_eq_true', Bool.or_eq_false_iff,
    Bool.and_eq_false_iff, decide_eq_false_iff_not, decide_eq_true_eq, Char.not_le,
    Decidable.not_not] at h
  rcases h with ⟨⟨_, h | h⟩, _⟩
  · have hlt : c.toNat < ' '.toNat := h
    exact Nat.lt_trans hlt (by decide)
  · subst h
    decide

/-- The number of a hidden character is read back as the character. -/
theorem readEscape_number {c : Char} (h : isHidden c = true) (rest : List Char) :
    readEscape ('u' :: '0' :: '0' :: upperHexDigit (c.toNat / 16) ::
      upperHexDigit (c.toNat % 16) :: rest) = some (c, rest) := by
  have digits : ∀ n < 128, Text.hexValue? (upperHexDigit (n / 16)) = some (n / 16) ∧
      Text.hexValue? (upperHexDigit (n % 16)) = some (n % 16) := by decide
  obtain ⟨high, low⟩ := digits _ (toNat_lt_of_isHidden h)
  have zero : Text.hexValue? '0' = some 0 := by decide
  have sum : c.toNat / 16 * 16 + c.toNat % 16 = c.toNat := by omega
  have valid : c.toNat.isValidChar := c.valid
  simp [readEscape, Text.readHex, Text.readHexFrom, high, low, zero, sum, charOf?, valid]

/-- The escape of a character is read back as the character. -/
theorem readBasic_escapeChar {c : Char} (quote : c ≠ '"') (line : c ≠ '\n') (steps : Nat)
    (text : List Char) :
    readBasic (steps + 1) (escapeChar c ++ text) =
      (readBasic steps text).map fun (cs, rest) => (c :: cs, rest) := by
  have reader : ((readBasic steps text).map fun (cs, rest) => (c :: cs, rest)) =
      (readBasic steps text).bind fun (cs, rest) => some (c :: cs, rest) := Option.map_eq_bind
  rw [reader, escapeChar.eq_def]
  split
  · simp [readBasic, readEscape]
  · simp [readBasic, readEscape]
  · simp [readBasic, readEscape]
  · simp [readBasic, readEscape]
  · simp [readBasic, readEscape]
  · next h₁ h₂ h₃ h₄ h₅ =>
    split
    · next h => simp [readBasic, readEscape_number h]
    · next h =>
      have hp : isPlain c = true := by simpa [isHidden, line] using h
      simp [readBasic, hp]

/-- Reading up to the closing quote undoes the escapes. -/
theorem readBasic_escapeBasic (s rest : List Char) {steps : Nat} (h : s.length < steps) :
    readBasic steps (escapeBasic s ++ '"' :: rest) = some (s, rest) := by
  induction s generalizing steps with
  | nil =>
    obtain ⟨n, rfl⟩ := Nat.exists_eq_succ_of_ne_zero (Nat.ne_of_gt h)
    rfl
  | cons c s ih =>
    obtain ⟨n, rfl⟩ := Nat.exists_eq_succ_of_ne_zero (Nat.ne_of_gt (Nat.zero_lt_of_lt h))
    have hs := @ih n (by simpa using h)
    simp only [escapeBasic, List.flatMap_cons, List.append_assoc] at hs ⊢
    split
    · next h => subst h; simp [readBasic, readEscape, hs]
    · next hq =>
      split
      · next h => subst h; simp [readBasic, readEscape, hs]
      · next hl => rw [readBasic_escapeChar hq hl, hs]; rfl

end ProgramGraph.Toml
