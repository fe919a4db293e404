set_option autoImplicit false

/-!
# Hexadecimal digits

Numbers in texts that name a character by its code point.

## Main definitions

* `ProgramGraph.Text.hexValue?` — the value of a digit, of either case.
* `ProgramGraph.Text.readHex` — the number written with a fixed count of digits.
* `ProgramGraph.Text.hexadecimal` — a number in digits of lower case.
-/

namespace ProgramGraph.Text

/-- The value of a hexadecimal digit. -/
def hexValue? (c : Char) : Option Nat :=
  if c.isDigit then some (c.toNat - '0'.toNat)
  else if 'a' ≤ c && c ≤ 'f' then some (c.toNat - 'a'.toNat + 10)
  else if 'A' ≤ c && c ≤ 'F' then some (c.toNat - 'A'.toNat + 10)
  else none

/-- The number written with `count` digits behind the number `before`, and the rest. -/
def readHexFrom (before : Nat) : Nat → List Char → Option (Nat × List Char)
  | 0, text => some (before, text)
  | _ + 1, [] => none
  | count + 1, c :: rest => do readHexFrom (before * 16 + (← hexValue? c)) count rest

/-- The number written with `count` digits, and the rest. -/
def readHex (count : Nat) (text : List Char) : Option (Nat × List Char) := readHexFrom 0 count text

/-- The digit for a number below sixteen, in lower case. -/
def hexDigit (n : Nat) : Char := n.digitChar

/-- A number in hexadecimal digits of lower case. -/
def hexadecimal (n : Nat) : String := String.ofList (Nat.toDigits 16 n)

end ProgramGraph.Text
