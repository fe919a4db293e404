import ProgramGraph.Decimal.Shortest

set_option autoImplicit false

/-!
# Writing doubles

How a double is written: with the digits of its shortest decimal, positionally if its size is
moderate and with an exponent otherwise.

## Main definitions

* `ProgramGraph.Decimal.Layout` — the decisions of a format.
* `ProgramGraph.Decimal.Layout.write` — the text of a double in a format.
-/

namespace ProgramGraph.Decimal

/-- The decisions of a format for doubles. Exponents are those of the first digit. -/
structure Layout where
  /-- The least exponent that is written positionally. -/
  leastPositional : Int
  /-- The greatest exponent that is written positionally. -/
  greatestPositional : Int
  /-- The least number of digits of an exponent. -/
  exponentDigits : Nat

namespace Layout

/-- The digits of a number with zeros in front up to a width. -/
def padded (width n : Nat) : String :=
  let digits := toString n
  String.ofList (List.replicate (width - digits.length) '0') ++ digits

/-- `n` zeros. -/
def zeros (n : Nat) : String := String.ofList (List.replicate n '0')

/-- Digits with a point behind the first `n` of them; there is at least one digit behind it. -/
def pointed (digits : String) (n : Nat) : String :=
  let before := String.ofList (digits.toList.take n)
  let after := String.ofList (digits.toList.drop n)
  before ++ "." ++ if after.isEmpty then "0" else after

/-- `digits · 10 ^ k` written positionally, where the first digit has the exponent `lead`. -/
def positional (digits : String) (k lead : Int) : String :=
  if lead < 0 then "0." ++ zeros (-lead - 1).toNat ++ digits
  else pointed (digits ++ zeros k.toNat) (lead + 1).toNat

/-- `digits` with an exponent. -/
def scientific (layout : Layout) (digits : String) (lead : Int) : String :=
  let significand := if digits.length ≤ 1 then digits else pointed digits 1
  significand ++ (if lead < 0 then "e-" else "e+") ++ padded layout.exponentDigits lead.natAbs

/-- The text of the finite double with the given bits. -/
def write (layout : Layout) (bits : UInt64) : String :=
  let sign := if bits.toNat >>> 63 = 1 then "-" else ""
  let x := Double.ofBits bits
  if x.significand = 0 then sign ++ "0.0"
  else
    let (d, k) := x.shortest
    let digits := toString d
    let lead := k + digits.length - 1
    sign ++ if layout.leastPositional ≤ lead && lead ≤ layout.greatestPositional then
      positional digits k lead
    else layout.scientific digits lead

end Layout

end ProgramGraph.Decimal
