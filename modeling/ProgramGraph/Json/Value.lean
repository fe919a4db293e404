set_option autoImplicit false

/-!
# JSON values

The tree of a JSON text. Objects keep their members in order and keep repeated keys, because what
reads them may have to complain about either.

## Main definitions

* `ProgramGraph.Json.Number` — a number, exact where it fits 64 bits.
* `ProgramGraph.Json.Value` — a value.
* `ProgramGraph.Json.maxDepth` — how deep arrays and objects may be nested.
-/

namespace ProgramGraph.Json

/-- A number. Integers that fit 64 bits are exact, all others are doubles. -/
inductive Number where
  /-- An integer that is not negative, below `2 ^ 64`. -/
  | natural (n : Nat)
  /-- The negative of a positive integer, which is at most `2 ^ 63`. -/
  | negative (n : Nat)
  /-- The double with the given bits. -/
  | double (bits : UInt64)
deriving DecidableEq, Repr

/-- A value. -/
inductive Value where
  | null
  | bool (b : Bool)
  | number (n : Number)
  | text (s : String)
  | array (elements : List Value)
  | object (members : List (String × Value))

namespace Value

/-- A natural number as a value. -/
def ofNat (n : Nat) : Value := .number (.natural n)

/-- A text that may be missing. -/
def ofText? : Option String → Value
  | some s => .text s
  | none => .null

/-- A natural number that may be missing. -/
def ofNat? : Option Nat → Value
  | some n => .ofNat n
  | none => .null

end Value

/-- Arrays and objects are nested at most this deep. -/
def maxDepth : Nat := 127

end ProgramGraph.Json
