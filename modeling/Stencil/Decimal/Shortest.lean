/-
**The fewest decimal digits that name a float.**

Many decimals round to the same float.  This module finds the one with the fewest digits, and of
those the nearest; where two are equally near, a rule for ties picks one.  The search is over the
grids of the decimals with one, two, … digits: on each grid only the two neighbours of the value
have to be tried, since if any point of a grid rounds to the float, so does one of them.

Main definitions:

* `Stencil.Decimal.Tie` — which of two equally near decimals is taken;
* `Stencil.Decimal.Interval` — the decimals that round to a float;
* `Stencil.Decimal.onGrid?` — the point of a grid that rounds to the float and is nearest to it;
* `Stencil.Decimal.shortest` — the fewest digits and their power of ten.
-/

import Stencil.Decimal.Double

set_option autoImplicit false

namespace Stencil.Decimal

/-- The numbers that round to a float of value `value / unit`: those between `low / unit` and
`high / unit`, the ends included if `closed`. -/
structure Interval where
  unit : Nat
  value : Nat
  low : Nat
  high : Nat
  closed : Bool
  deriving Repr

/-- The interval of a positive float.  Below a power of two the floats are twice as close. -/
def Interval.ofParts (p : Parts) : Interval :=
  let unit := Nat.pow 2 (2 - p.exponent).toNat
  let scale := Nat.pow 2 (p.exponent - 2).toNat
  let below := if p.mantissa = Nat.pow 2 52 ∧ leastExponent < p.exponent then 1 else 2
  { unit := unit
    value := 4 * p.mantissa * scale
    low := (4 * p.mantissa - below) * scale
    high := (4 * p.mantissa + 2) * scale
    closed := p.mantissa % 2 == 0 }

/-- Whether `n` times ten to the power `k` lies in the interval. -/
def Interval.holds (i : Interval) (n : Nat) (k : Int) : Bool :=
  let point := n * Nat.pow 10 k.toNat * i.unit
  let scale := Nat.pow 10 (-k).toNat
  if i.closed then i.low * scale ≤ point && point ≤ i.high * scale
  else i.low * scale < point && point < i.high * scale

/-- The power of ten of the leading digit of a positive value. -/
def Interval.magnitude (i : Interval) : Int :=
  ((Nat.toDigits 10 (i.value * Nat.pow 10 324 / i.unit)).length : Int) - 325

/-- Which of two neighbours on a grid is taken for a value halfway between them. -/
inductive Tie where
  /-- The one whose last digit is even. -/
  | even
  /-- The greater one. -/
  | up
  deriving DecidableEq, Repr

/-- Whether the lower neighbour `down` is taken for a value halfway to the next one. -/
def Tie.takesLower : Tie → Nat → Bool
  | even, down => down % 2 == 0
  | up, _ => false

/-- The multiple of ten to the power `k` that lies in the interval and is nearest to its value. -/
def onGrid? (tie : Tie) (i : Interval) (k : Int) : Option Nat :=
  let scaled := i.value * Nat.pow 10 (-k).toNat
  let step := Nat.pow 10 k.toNat * i.unit
  let down := scaled / step
  match i.holds down k, i.holds (down + 1) k with
  | true, false => some down
  | false, true => some (down + 1)
  | true, true =>
    let rest := 2 * (scaled % step)
    if rest < step ∨ (rest = step ∧ tie.takesLower down) then some down else some (down + 1)
  | false, false => none

/-- The digits and the power of ten of the first grid, from `k` down, with a point in the
interval; `fuel` grids are tried. -/
def search (tie : Tie) (i : Interval) : Nat → Int → Nat × Int
  | 0, k => (i.value * Nat.pow 10 (-k).toNat / (Nat.pow 10 k.toNat * i.unit), k)
  | fuel + 1, k =>
    match onGrid? tie i k with
    | some n => (n, k)
    | none => search tie i fuel (k - 1)

/-- The fewest digits that name a positive float, and the power of ten they are a multiple of. -/
def shortest (tie : Tie) (p : Parts) : Nat × Int :=
  let i := Interval.ofParts p
  search tie i 17 i.magnitude

end Stencil.Decimal
