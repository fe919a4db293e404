import ProgramGraph.Json.Value

set_option autoImplicit false

/-!
# Reading JSON numbers

An integer that fits 64 bits is read exactly. Everything else (a fraction, an exponent, a large
integer, minus zero) becomes a double: the leading digits that fit 64 bits, scaled by a power of
ten in double arithmetic. A number that is too large for a double cannot be read.

## Main definitions

* `ProgramGraph.Json.readNumber` — the number at the start of a text, and the rest.
* `ProgramGraph.Json.skipNumber` — the rest alone, however large the number is.
-/

namespace ProgramGraph.Json

/-- The value of a decimal digit. -/
def digitValue (c : Char) : Nat := c.toNat - '0'.toNat

/-- Whether a text starts with a digit. -/
def startsWithDigit : List Char → Bool
  | c :: _ => c.isDigit
  | [] => false

/-- A text without the digits at its start. -/
def dropDigits (text : List Char) : List Char := text.dropWhile Char.isDigit

/-- Appends digits to a number as long as it stays below `2 ^ 64`; the second number counts them. -/
def takeDigits : Nat → Nat → List Char → Nat × Nat × List Char
  | n, count, [] => (n, count, [])
  | n, count, c :: rest =>
    if c.isDigit && n * 10 + digitValue c < 1 <<< 64 then
      takeDigits (n * 10 + digitValue c) (count + 1) rest
    else (n, count, c :: rest)

/-! ## Doubles -/

/-- At most `steps` times `10 ^ 308` is divided off before the last step. -/
def scaleWithin : Nat → Float → Int → Option Float
  | 0, x, _ => some x
  | steps + 1, x, e =>
    if e.natAbs ≤ 308 then
      let power := Float.ofScientific 1 false e.natAbs
      if e < 0 then some (x / power)
      else if (x * power).isInf then none
      else some (x * power)
    else if x == 0 then some x
    else if e < 0 then scaleWithin steps (x / 1e308) (e + 308)
    else none

/-- `n · 10 ^ e` as a double, unless it is too large. Below `2 ^ 64`, three divisions by `10 ^ 308`
leave nothing. -/
def scale (n : Nat) (e : Int) : Option Float := scaleWithin 4 n.toUInt64.toFloat e

/-- The double `n · 10 ^ e` with a sign. -/
def scaled (isNegative : Bool) (n : Nat) (e : Int) : Option Number :=
  (scale n e).map fun x => .double (if isNegative then -x else x).toBits

/-! ## Parts of a number -/

/-- The number whose exponent starts behind its mark. -/
def readExponent (isNegative : Bool) (n : Nat) (e : Int) (text : List Char) :
    Option (Number × List Char) := do
  let (down, digits) := match text with
    | '+' :: rest => (false, rest)
    | '-' :: rest => (true, rest)
    | _ => (false, text)
  guard (startsWithDigit digits)
  let shift : Nat := (digits.takeWhile Char.isDigit).foldl (fun s c => s * 10 + digitValue c) 0
  let number ← scaled isNegative n (if down then e - shift else e + shift)
  return (number, dropDigits digits)

/-- The number that may end here or go on with an exponent. -/
def finishDouble (isNegative : Bool) (n : Nat) (e : Int) : List Char → Option (Number × List Char)
  | 'e' :: rest => readExponent isNegative n e rest
  | 'E' :: rest => readExponent isNegative n e rest
  | text => (scaled isNegative n e).map fun number => (number, text)

/-- The number whose fraction starts behind its point. Digits that no longer fit are dropped. -/
def readFraction (isNegative : Bool) (n : Nat) (e : Int) (text : List Char) :
    Option (Number × List Char) := do
  let (m, count, rest) := takeDigits n 0 text
  guard (count ≠ 0 || startsWithDigit rest)
  finishDouble isNegative m (e - count) (dropDigits rest)

/-- An integer without fraction and exponent. Minus zero and integers that do not fit are
doubles. -/
def integer (isNegative : Bool) (n : Nat) : Option Number :=
  if !isNegative then some (.natural n)
  else if n = 0 || n > 1 <<< 63 then scaled true n 0
  else some (.negative n)

/-- The unsigned number at the start of a text. -/
def readUnsigned (isNegative : Bool) (text : List Char) : Option (Number × List Char) := do
  guard (startsWithDigit text)
  let (n, _, rest) := takeDigits 0 0 text
  if text.head? = some '0' && startsWithDigit text.tail then none
  else if startsWithDigit rest then
    let e : Int := (rest.takeWhile Char.isDigit).length
    match dropDigits rest with
    | '.' :: rest => readFraction isNegative n e rest
    | rest => finishDouble isNegative n e rest
  else match rest with
    | '.' :: rest => readFraction isNegative n 0 rest
    | 'e' :: rest => readExponent isNegative n 0 rest
    | 'E' :: rest => readExponent isNegative n 0 rest
    | rest => (integer isNegative n).map fun number => (number, rest)

/-- The number at the start of a text, and the rest. -/
def readNumber : List Char → Option (Number × List Char)
  | '-' :: rest => readUnsigned true rest
  | text => readUnsigned false text

/-! ## Skipping -/

/-- Skips the digits at the start of a text; there must be one. -/
def skipDigits (text : List Char) : Option (List Char) :=
  if startsWithDigit text then some (dropDigits text) else none

/-- Skips an exponent, if there is one. -/
def skipExponent : List Char → Option (List Char)
  | c :: rest =>
    if c = 'e' || c = 'E' then
      match rest with
      | '+' :: rest => skipDigits rest
      | '-' :: rest => skipDigits rest
      | rest => skipDigits rest
    else some (c :: rest)
  | [] => some []

/-- Skips a number of any size. -/
def skipNumber (text : List Char) : Option (List Char) := do
  let unsigned := match text with
    | '-' :: rest => rest
    | _ => text
  let rest ← match unsigned with
    | '0' :: rest => if startsWithDigit rest then none else some rest
    | _ => skipDigits unsigned
  match rest with
  | '.' :: rest => skipExponent (← skipDigits rest)
  | rest => skipExponent rest

end ProgramGraph.Json
