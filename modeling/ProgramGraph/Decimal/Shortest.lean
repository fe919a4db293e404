set_option autoImplicit false

/-!
# Shortest decimals

A double stands for all reals that round to it. The shortest decimal of a double has as few digits
as a decimal among these reals can have, and lies nearest to the double among those.

## Main definitions

* `ProgramGraph.Decimal.Double` — a finite positive double, as an integer times a power of two.
* `ProgramGraph.Decimal.Double.shortest` — its shortest decimal, as an integer times a power of ten.

## Design

All bounds are fractions with a common denominator, so that only natural numbers are compared. A
grid of decimals `d · 10^k` is tried for every `k`, from the coarsest on. If a point of the grid
rounds to the double, so does one of the two neighbours of the double on the grid.
-/

namespace ProgramGraph.Decimal

/-- A finite positive double `significand · 2 ^ exponent`. -/
structure Double where
  /-- The integer. -/
  significand : Nat
  /-- The power of two. -/
  exponent : Int
  /-- Whether the next smaller double is only half as far away as the next larger one. -/
  atPowerOfTwo : Bool
deriving DecidableEq, Repr

namespace Double

/-- The double with the given bits, without its sign. -/
def ofBits (bits : UInt64) : Double :=
  let fraction : Nat := bits.toNat % (1 <<< 52)
  let biased : Nat := (bits.toNat >>> 52) % (1 <<< 11)
  if biased = 0 then ⟨fraction, -1074, false⟩
  else ⟨(1 <<< 52) + fraction, (biased : Int) - 1075, fraction = 0 && biased ≠ 1⟩

/-- The double and the bounds of the reals that round to it, over one denominator that takes in
`10 ^ k` as well: the four numbers stand for the lower bound, the double, the upper bound and the
step of the grid. -/
def scaled (x : Double) (k : Int) : Nat × Nat × Nat × Nat :=
  let value := 4 * x.significand
  let below := value - if x.atPowerOfTwo then 1 else 2
  let above := value + 2
  let binary := x.exponent - 2
  let up := Nat.pow 2 binary.toNat * Nat.pow 10 (-k).toNat
  let step := Nat.pow 10 k.toNat * Nat.pow 2 (-binary).toNat
  (below * up, value * up, above * up, step)

/-- The point of the grid with step `10 ^ k` that lies nearest to the double, if it rounds to the
double. -/
def onGrid? (x : Double) (k : Int) : Option Nat :=
  let (below, value, above, step) := x.scaled k
  let inside (d : Nat) : Bool :=
    if x.significand % 2 = 0 then below ≤ d * step && d * step ≤ above
    else below < d * step && d * step < above
  let down := value / step
  let up := down + 1
  let upIsNearer := 2 * (value - down * step) > step
  if upIsNearer && inside up then some up
  else if down ≠ 0 && inside down then some down
  else if inside up then some up
  else none

/-- The first hit on one of `n` grids, from `10 ^ k` downwards. -/
def firstHit (x : Double) : Nat → Int → Nat × Int
  | 0, k => ((x.onGrid? k).getD 0, k)
  | n + 1, k =>
    match x.onGrid? k with
    | some d => (d, k)
    | none => firstHit x n (k - 1)

/-- The shortest decimal of a double: `(d, k)` stands for `d · 10 ^ k`. -/
def shortest (x : Double) : Nat × Int := x.firstHit 640 309

end Double

end ProgramGraph.Decimal
