import ProgramGraph.Text.Hexadecimal
import ProgramGraph.Toml.Value

set_option autoImplicit false

/-!
# Numbers, dates and times

The values that are written without quotes and brackets. None of them may be longer than the
longest run of the characters they consist of, so the run as a whole must be one of them.

## Main definitions

* `ProgramGraph.Toml.integer?` — an integer of 64 bits, in one of four bases.
* `ProgramGraph.Toml.isReal` — whether a text is a real number.
* `ProgramGraph.Toml.isMoment` — whether a text is a date, a time or both.
* `ProgramGraph.Toml.readScalar` — the value at the start of a text, and the rest.
-/

namespace ProgramGraph.Toml

/-! ## Digits -/

/-- The digits of a text in which single underscores may stand between digits. The flag says
whether the text follows a digit. -/
def digitsFrom (isDigit : Char → Bool) (behindDigit : Bool) : List Char → Option (List Char)
  | [] => if behindDigit then some [] else none
  | '_' :: rest => if behindDigit then digitsFrom isDigit false rest else none
  | c :: rest =>
    if isDigit c then (digitsFrom isDigit true rest).map (c :: ·) else none

/-- The digits of a text in which single underscores may stand between digits. -/
def digits? (isDigit : Char → Bool) (text : List Char) : Option (List Char) :=
  digitsFrom isDigit false text

/-- The number with some digits. -/
def numberOf (base : Nat) (digits : List Char) : Nat :=
  digits.foldl (fun n c => n * base + (Text.hexValue? c).getD 0) 0

/-- A text without its sign, and whether the sign is a minus. -/
def unsigned : List Char → Bool × List Char
  | '+' :: rest => (false, rest)
  | '-' :: rest => (true, rest)
  | text => (false, text)

/-- The digits of a number without sign that does not begin with a superfluous zero. -/
def plainDigits? (text : List Char) : Option (List Char) :=
  match text with
  | '0' :: _ :: _ => none
  | _ => digits? Char.isDigit text

/-! ## Integers -/

/-- The least magnitude that is no positive integer of 64 bits. -/
def integerLimit : Nat := 1 <<< 63

/-- A number below the limit, from its digits. -/
def limited (base : Nat) (digits : List Char) : Option Int :=
  let n := numberOf base digits
  if n < integerLimit then some n else none

/-- The integer that a text stands for. -/
def integer? (text : List Char) : Option Int :=
  match text with
  | '0' :: 'x' :: rest => digits? (fun c => (Text.hexValue? c).isSome) rest >>= limited 16
  | '0' :: 'o' :: rest => digits? (fun c => '0' ≤ c && c ≤ '7') rest >>= limited 8
  | '0' :: 'b' :: rest => digits? (fun c => c = '0' || c = '1') rest >>= limited 2
  | _ => do
    let (negative, rest) := unsigned text
    let n := numberOf 10 (← plainDigits? rest)
    if negative then
      guard (n ≤ integerLimit)
      return -n
    else
      guard (n < integerLimit)
      return n

/-! ## Real numbers -/

/-- The least number that is too large for a double, since it rounds to a power of two beyond the
largest one. -/
def realLimit : Nat := (1 <<< 1024) - (1 <<< 970)

/-- Whether `n * 10 ^ exponent` is too large for a double. -/
def overflows (n : Nat) (exponent : Int) : Bool :=
  let size := (toString n).length + exponent
  if n = 0 || size < 300 then false
  else if 320 < size then true
  else if 0 ≤ exponent then realLimit ≤ n * Nat.pow 10 exponent.toNat
  else realLimit * Nat.pow 10 (-exponent).toNat ≤ n

/-- Whether a character begins the exponent of a number. -/
def startsExponent (c : Char) : Bool := c = 'e' || c = 'E'

/-- The exponent that a text stands for. -/
def exponent? : List Char → Option Int
  | [] => some 0
  | _ :: text => do
    let (negative, rest) := unsigned text
    let n := numberOf 10 (← digits? Char.isDigit rest)
    return if negative then -n else n

/-- The digits behind the point of a number. -/
def fraction? : List Char → Option (List Char)
  | [] => some []
  | _ :: text => digits? Char.isDigit text

/-- Whether a text is a real number with digits. Negative ones may be of any size. -/
def isWrittenReal (text : List Char) : Bool :=
  let (negative, rest) := unsigned text
  let significand := rest.takeWhile fun c => !startsExponent c
  let tail := rest.dropWhile fun c => !startsExponent c
  let whole := significand.takeWhile (· ≠ '.')
  let behind := significand.dropWhile (· ≠ '.')
  match plainDigits? whole, fraction? behind, exponent? tail with
  | some digits, some more, some exponent =>
    !(behind.isEmpty && tail.isEmpty) &&
      (negative || !overflows (numberOf 10 (digits ++ more)) (exponent - more.length))
  | _, _, _ => false

/-- Whether a text is a real number. -/
def isReal (text : List Char) : Bool :=
  let rest := (unsigned text).2
  rest = ['i', 'n', 'f'] || rest = ['n', 'a', 'n'] || isWrittenReal text

/-! ## Dates and times -/

/-- The number written with exactly as many digits as there are. -/
def fixedNumber? (digits : List Char) : Option Nat :=
  if digits.all Char.isDigit then some (numberOf 10 digits) else none

/-- Whether a year has a 29th of February. -/
def isLeapYear (year : Nat) : Bool := year % 4 = 0 && (year % 100 ≠ 0 || year % 400 = 0)

/-- The number of days of a month. -/
def daysOf (year month : Nat) : Nat :=
  if month = 2 then (if isLeapYear year then 29 else 28)
  else if month = 4 || month = 6 || month = 9 || month = 11 then 30
  else 31

/-- The text behind the date it begins with. -/
def afterDate? : List Char → Option (List Char)
  | y₁ :: y₂ :: y₃ :: y₄ :: '-' :: m₁ :: m₂ :: '-' :: d₁ :: d₂ :: rest => do
    let year ← fixedNumber? [y₁, y₂, y₃, y₄]
    let month ← fixedNumber? [m₁, m₂]
    let day ← fixedNumber? [d₁, d₂]
    guard (1 ≤ month && month ≤ 12 && 1 ≤ day && day ≤ daysOf year month)
    return rest
  | _ => none

/-- The text behind the fraction of a second it may begin with. -/
def afterFraction? : List Char → Option (List Char)
  | '.' :: c :: rest => if c.isDigit then some (rest.dropWhile Char.isDigit) else none
  | '.' :: [] => none
  | text => some text

/-- The text behind the hours and minutes it begins with. -/
def afterClock? : List Char → Option (List Char)
  | h₁ :: h₂ :: ':' :: m₁ :: m₂ :: rest => do
    guard ((← fixedNumber? [h₁, h₂]) < 24 && (← fixedNumber? [m₁, m₂]) < 60)
    return rest
  | _ => none

/-- The text behind the time of day it begins with. There may be a leap second. -/
def afterTime? (text : List Char) : Option (List Char) := do
  match ← afterClock? text with
  | ':' :: s₁ :: s₂ :: rest =>
    guard ((← fixedNumber? [s₁, s₂]) ≤ 60)
    afterFraction? rest
  | _ => none

/-- Whether a text is the distance from universal time. -/
def isOffset : List Char → Bool
  | ['Z'] | ['z'] => true
  | '+' :: rest | '-' :: rest => afterClock? rest == some []
  | _ => false

/-- Whether a character stands between a date and a time. -/
def isTimeMark (c : Char) : Bool := c = 'T' || c = 't' || c = ' '

/-- Whether a text is what may stand behind a date. -/
def endsDate : List Char → Bool
  | [] => true
  | c :: rest =>
    isTimeMark c && (afterTime? rest).any fun behind => behind.isEmpty || isOffset behind

/-- Whether a text is a date, a time or both. -/
def isMoment (text : List Char) : Bool :=
  (afterDate? text).any endsDate || afterTime? text == some []

/-! ## Reading -/

/-- Whether a character may be part of a number, a date or a time. -/
def isScalarChar (c : Char) : Bool :=
  c.isAlphanum || c = '+' || c = '-' || c = '.' || c = ':' || c = '_'

/-- The run of characters at the start of a text that is read as one value. A blank belongs to it
where it stands between a date and a time. -/
def scalarRun (text : List Char) : List Char × List Char :=
  let run := text.takeWhile isScalarChar
  match text.dropWhile isScalarChar with
  | ' ' :: c :: rest =>
    if c.isDigit && (afterDate? run).any List.isEmpty then
      (run ++ ' ' :: (c :: rest).takeWhile isScalarChar, (c :: rest).dropWhile isScalarChar)
    else (run, ' ' :: c :: rest)
  | rest => (run, rest)

/-- The value that a text without quotes and brackets stands for. -/
def scalar? (text : List Char) : Option Value :=
  if text = ['t', 'r', 'u', 'e'] then some (.boolean true)
  else if text = ['f', 'a', 'l', 's', 'e'] then some (.boolean false)
  else match integer? text with
    | some n => some (.integer n)
    | none =>
      if isReal text then some (.real (String.ofList text))
      else if isMoment text then some (.moment (String.ofList text))
      else none

/-- The value at the start of a text that is written without quotes and brackets, and the rest. -/
def readScalar (text : List Char) : Option (Value × List Char) :=
  let (run, rest) := scalarRun text
  (scalar? run).map fun v => (v, rest)

end ProgramGraph.Toml
