import Mathlib.Data.Option.Basic
import Mathlib.Tactic.Common
import ProgramGraph.Json.Printer
import ProgramGraph.Json.Reader

set_option autoImplicit false

/-!
# Reading back strings and numbers

What is written for a string or an exact number is read as the same string or number, whatever text
stands behind it. A number only has to end there: a text that could continue it must not follow.

## Main definitions

* `ProgramGraph.Json.Number.IsExact` — a number within 64 bits.
* `ProgramGraph.Json.EndsValue` — a text that may stand behind a value in a compact text.

## Main results

* `ProgramGraph.Json.readString_escapeChars` — a string is read back.
* `ProgramGraph.Json.readNumber_write` — an exact number is read back.
-/

namespace ProgramGraph.Json

variable {c : Char} {cs ds rest : List Char} {n steps : Nat}

/-! ## Strings -/

/-- A hexadecimal digit is read back. -/
theorem hexValue?_hexDigit (hn : n < 16) : Text.hexValue? (Text.hexDigit n) = some n := by
  have all : ∀ m < 16, Text.hexValue? (Text.hexDigit m) = some m := by decide
  exact all n hn

/-- A control character is read back from its number, which is not half of a surrogate pair. -/
theorem readCodePoint_control (hc : c.toNat < 32) :
    readCodePoint ('0' :: '0' :: Text.hexDigit (c.toNat / 16) :: Text.hexDigit (c.toNat % 16) :: rest)
      = some (c, rest) := by
  have zero : Text.hexValue? '0' = some 0 := by decide
  have high := hexValue?_hexDigit (n := c.toNat / 16) (by omega)
  have low := hexValue?_hexDigit (n := c.toNat % 16) (by omega)
  have value : c.toNat / 16 * 16 + c.toNat % 16 = c.toNat := by omega
  have readHex : Text.readHex 4 ('0' :: '0' :: Text.hexDigit (c.toNat / 16)
      :: Text.hexDigit (c.toNat % 16) :: rest) = some (c.toNat, rest) := by
    simp [Text.readHex, Text.readHexFrom, zero, high, low, value]
  have isPlain : isHighSurrogate c.toNat = false ∧ isLowSurrogate c.toNat = false := by
    simp [isHighSurrogate, isLowSurrogate]
    omega
  simp [readCodePoint, readHex, isPlain, Char.ofNat_toNat]

/-- One written character is read in one step. -/
theorem readChars_escapeChar :
    readChars (steps + 1) (escapeChar c ++ rest)
      = (readChars steps rest).map fun p => (c :: p.1, p.2) := by
  unfold escapeChar
  split
  -- a character without a letter of its own: written by its number, or as it is
  case h_8 quote backslash _ _ _ _ _ =>
    split
    case isTrue control =>
      have hc : c.toNat < 32 := by simpa [Char.lt_def, UInt32.lt_iff_toNat_lt] using control
      simp only [List.cons_append, List.nil_append, readChars, readEscape]
      cases h : readChars steps rest <;> simp [readCodePoint_control hc, h]
    case isFalse plain =>
      have hc : ' ' ≤ c := Char.not_lt.mp plain
      rw [List.singleton_append, readChars]
      · cases h : readChars steps rest <;> simp [hc]
      · exact quote
      · exact backslash
  all_goals
    simp only [List.cons_append, List.nil_append, readChars, readEscape, escaped?]
    cases h : readChars steps rest <;> simp [h]

/-- Escaped characters are read back, up to the closing quote. -/
theorem readChars_escapeChars (cs rest : List Char) :
    ∀ steps, cs.length < steps → readChars steps (escapeChars cs ++ '"' :: rest) = some (cs, rest) := by
  induction cs with
  | nil =>
    intro steps hsteps
    obtain ⟨steps, rfl⟩ := Nat.exists_eq_succ_of_ne_zero (Nat.ne_of_gt hsteps)
    simp [escapeChars, readChars]
  | cons c cs ih =>
    intro steps hsteps
    obtain ⟨steps, rfl⟩ := Nat.exists_eq_succ_of_ne_zero (Nat.ne_of_gt (Nat.zero_lt_of_lt hsteps))
    have tail := ih steps (by simpa using hsteps)
    rw [escapeChars] at tail
    rw [escapeChars, List.flatMap_cons, List.append_assoc, readChars_escapeChar, tail]
    rfl

/-- Characters are no more than what they are escaped by. -/
theorem length_le_escapeChars (cs : List Char) : cs.length ≤ (escapeChars cs).length := by
  induction cs with
  | nil => simp
  | cons c cs ih =>
    have written : 0 < (escapeChar c).length := by
      unfold escapeChar
      split <;> try split
      all_goals simp
    rw [escapeChars] at ih
    simp only [escapeChars, List.flatMap_cons, List.length_cons, List.length_append]
    omega

/-- A string is read back, whatever stands behind its closing quote. -/
theorem readString_escapeChars (s : String) (rest : List Char) :
    readString (escapeChars s.toList ++ '"' :: rest) = some (s, rest) := by
  have enough : s.toList.length < (escapeChars s.toList ++ '"' :: rest).length + 1 := by
    have := length_le_escapeChars s.toList
    simp only [List.length_append]
    omega
  rw [readString, readChars_escapeChars _ _ _ enough]
  simp

/-- A text is written between quotes. -/
theorem toList_writeText (s : String) :
    (writeText s).toList = '"' :: (escapeChars s.toList ++ ['"']) := by
  simp [writeText]

/-! ## Numbers -/

/-- A number within 64 bits; zero has no sign. -/
def Number.IsExact : Number → Prop
  | .natural n => n < 1 <<< 64
  | .negative n => 0 < n ∧ n ≤ 1 <<< 63
  | .double _ => False

/-- A text that may stand behind a value in a compact text. -/
def EndsValue : List Char → Prop
  | [] => True
  | c :: _ => c = ',' ∨ c = ']' ∨ c = '}'

/-- What ends a value does not begin with a digit. -/
theorem EndsValue.startsWithDigit (hrest : EndsValue rest) : startsWithDigit rest = false := by
  cases rest with
  | nil => rfl
  | cons c rest => obtain rfl | rfl | rfl := hrest <;> rfl

/-- More digits make no smaller number. -/
theorem le_ofDigitChars (ds : List Char) (n : Nat) : n ≤ Nat.ofDigitChars 10 ds n := by
  rw [Nat.ofDigitChars_eq_ofDigitChars_zero]
  exact Nat.le_trans (Nat.le_mul_of_pos_left n (Nat.pow_pos (by decide))) (Nat.le_add_right _ _)

/-- All digits are taken if they make a number below `2 ^ 64`, for then no digit before the last one
is too much. -/
theorem takeDigits_append (isDigit : ∀ c ∈ ds, c.isDigit) (ends : startsWithDigit rest = false) :
    ∀ n count, Nat.ofDigitChars 10 ds n < 1 <<< 64 →
      takeDigits n count (ds ++ rest) = (Nat.ofDigitChars 10 ds n, count + ds.length, rest) := by
  induction ds with
  | nil =>
    intro n count _
    cases rest with
    | nil => rfl
    | cons c rest =>
      have notDigit : c.isDigit = false := ends
      simp [takeDigits, notDigit]
  | cons c ds ih =>
    intro n count fits
    rw [Nat.ofDigitChars_cons, Nat.mul_comm 10] at fits
    have firstFits : n * 10 + digitValue c < 1 <<< 64 := Nat.lt_of_le_of_lt (le_ofDigitChars ds _) fits
    have tail := ih (fun d hd => isDigit d (List.mem_cons_of_mem c hd)) _ (count + 1) fits
    rw [List.cons_append, takeDigits, if_pos (by simpa [isDigit c] using firstFits)]
    rw [Nat.ofDigitChars_cons, Nat.mul_comm 10, List.length_cons, ← Nat.add_assoc,
      Nat.add_right_comm]
    exact tail

/-- A number is written without leading zeros. -/
theorem head?_toDigits (n : Nat) (hn : n ≠ 0) : (Nat.toDigits 10 n).head? ≠ some '0' := by
  induction n using Nat.strongRecOn with
  | _ n ih =>
    rw [Nat.toDigits_eq_if (by decide)]
    split
    · simpa using hn
    · have high := ih (n / 10) (by omega) (by omega)
      cases h : Nat.toDigits 10 (n / 10) with
      | nil => exact absurd h Nat.toDigits_ne_nil
      | cons c ds => simpa [h] using high

/-- Behind a zero at the start of a number stands no digit: the zero is all of the number. -/
theorem leadingZero (n : Nat) (ends : startsWithDigit rest = false) :
    (decide ((Nat.toDigits 10 n ++ rest).head? = some '0')
      && startsWithDigit (Nat.toDigits 10 n ++ rest).tail) = false := by
  by_cases hn : n = 0
  · subst hn
    simpa using ends
  · have high := head?_toDigits n hn
    cases h : Nat.toDigits 10 n with
    | nil => exact absurd h Nat.toDigits_ne_nil
    | cons c ds =>
      have notZero : c ≠ '0' := by simpa [h] using high
      simp [notZero]

/-- A number begins with a digit. -/
theorem startsWithDigit_toDigits (n : Nat) (rest : List Char) :
    startsWithDigit (Nat.toDigits 10 n ++ rest) = true := by
  cases h : Nat.toDigits 10 n with
  | nil => exact absurd h Nat.toDigits_ne_nil
  | cons c ds =>
    exact Nat.isDigit_of_mem_toDigits (b := 10) (n := n) (by decide) (by decide) (by simp [h])

/-- The digits of a number are read back as an integer. -/
theorem readUnsigned_toDigits (isNegative : Bool) (fits : n < 1 <<< 64) (hrest : EndsValue rest) :
    readUnsigned isNegative (Nat.toDigits 10 n ++ rest)
      = (integer isNegative n).map fun number => (number, rest) := by
  have ends := hrest.startsWithDigit
  have value : Nat.ofDigitChars 10 (Nat.toDigits 10 n) 0 = n :=
    Nat.ofDigitChars_toDigits (by decide) (by decide)
  have digits : ∀ c ∈ Nat.toDigits 10 n, c.isDigit = true := fun c hc =>
    Nat.isDigit_of_mem_toDigits (by decide) (by decide) hc
  have taken := takeDigits_append digits ends 0 0 (by rwa [value])
  rw [value] at taken
  -- all digits are taken, so that what is left decides between an integer and a double
  simp only [readUnsigned, startsWithDigit_toDigits, guard, if_true, taken, leadingZero n ends, ends,
    Option.pure_def, Option.bind_eq_bind, Option.bind_some, Bool.false_eq_true, if_false]
  cases rest with
  | nil => rfl
  | cons c rest => obtain rfl | rfl | rfl := hrest <;> rfl

/-- An exact number is read back.

**Proof sketch.** By the kind of the number. Digits are read back as the number that they were written for,
and what follows is not taken for a part of it. Doubles are not exact. -/
theorem readNumber_write {number : Number} (exact : number.IsExact) (hrest : EndsValue rest) :
    readNumber (number.write.toList ++ rest) = some (number, rest) := by
  cases number with
  | natural n =>
    have digits : (Number.natural n).write.toList = Nat.toDigits 10 n := by
      rw [Number.write, Nat.toString_eq_ofList_toDigits, String.toList_ofList]
    have unsigned := readUnsigned_toDigits false exact hrest
    rw [digits, readNumber]
    · exact unsigned
    · intro after hminus
      have digit := startsWithDigit_toDigits n rest
      rw [hminus] at digit
      cases digit
  | negative n =>
    have digits : (Number.negative n).write.toList = '-' :: Nat.toDigits 10 n := by
      simp [Number.write]
    have read : integer true n = some (.negative n) := by
      obtain ⟨positive, small⟩ := exact
      have inRange : ¬ (n = 0 ∨ n > 1 <<< 63) := by omega
      rw [integer, Bool.not_true, if_neg Bool.false_ne_true, if_neg]
      simpa using inRange
    have fits : n < 1 <<< 64 := Nat.lt_of_le_of_lt exact.2 (by decide)
    rw [digits, List.cons_append, readNumber, readUnsigned_toDigits true fits hrest, read]
    rfl
  | double bits => exact exact.elim

end ProgramGraph.Json
