/-
**Floats as whole numbers times powers of two.**

A finite float is, up to its sign, a whole number below `2 ^ 53` times a power of two.  The
operations of this module are exact computations on the two numbers.

Main definitions:

* `Stencil.Decimal.Parts`, `Stencil.Decimal.parts?` — the parts of a finite float;
* `Stencil.Decimal.ofParts` — the float with given parts;
* `Stencil.Decimal.isWhole`, `Stencil.Decimal.floor?` — whether a float is a whole number, and the
  greatest whole number that is not above it;
* `Stencil.Decimal.remainder` — the remainder of a division whose quotient is cut toward zero.
-/

set_option autoImplicit false

namespace Stencil.Decimal

/-- The parts of a finite float: its value is `mantissa * 2 ^ exponent`, negated if `negative`. -/
structure Parts where
  negative : Bool
  mantissa : Nat
  exponent : Int
  deriving DecidableEq, Repr

/-- The exponent of the least positive float. -/
def leastExponent : Int := -1074

/-- The parts of a float, unless it is infinite or not a number. -/
def parts? (x : Float) : Option Parts :=
  let bits := x.toBits.toNat
  let negative := bits / Nat.pow 2 63 == 1
  let exponent : Nat := bits / Nat.pow 2 52 % Nat.pow 2 11
  let fraction : Nat := bits % Nat.pow 2 52
  if exponent = 2047 then none
  else if exponent = 0 then some ⟨negative, fraction, leastExponent⟩
  else some ⟨negative, Nat.pow 2 52 + fraction, (exponent : Int) - 1075⟩

/-- The float with the given parts, when there is one. -/
def ofParts (p : Parts) : Float :=
  if p.mantissa = 0 then
    if p.negative then -0.0 else 0.0
  else
    let shift := max (Int.ofNat p.mantissa.log2 - 52) (leastExponent - p.exponent)
    let mantissa :=
      if 0 ≤ shift then p.mantissa / Nat.pow 2 shift.toNat
      else p.mantissa * Nat.pow 2 (-shift).toNat
    let exponent := if mantissa < Nat.pow 2 52 then 0 else (p.exponent + shift + 1075).toNat
    let sign := if p.negative then Nat.pow 2 63 else 0
    Float.ofBits (UInt64.ofNat (sign + exponent * Nat.pow 2 52 + mantissa % Nat.pow 2 52))

/-- The greatest whole number that is not above a finite float. -/
def floor? (x : Float) : Option Int :=
  (parts? x).map fun p =>
    let m : Int := if p.negative then -(p.mantissa : Int) else p.mantissa
    if 0 ≤ p.exponent then m * Int.pow 2 p.exponent.toNat
    else Int.fdiv m (Int.pow 2 (-p.exponent).toNat)

/-- Whether a float is a whole number. -/
def isWhole (x : Float) : Bool :=
  match parts? x with
  | none => false
  | some p => 0 ≤ p.exponent || p.mantissa % Nat.pow 2 (-p.exponent).toNat == 0

/-- Whether the sign of a float is negative; zero has a sign too. -/
def isNegative (x : Float) : Bool := x.toBits.toNat / Nat.pow 2 63 == 1

/-- The nearest float to a whole number. -/
def ofInt (n : Int) : Float :=
  if n < 0 then -Float.ofScientific n.natAbs false 0 else Float.ofScientific n.natAbs false 0

/-- What is left of `x` after taking away as many whole `y` as fit; it has the sign of `x`. -/
def remainder (x y : Float) : Float :=
  match parts? x, parts? y with
  | some p, some q =>
    if q.mantissa = 0 then 0.0 / 0.0
    else
      let least := min p.exponent q.exponent
      let a := p.mantissa * Nat.pow 2 (p.exponent - least).toNat
      let b := q.mantissa * Nat.pow 2 (q.exponent - least).toNat
      ofParts ⟨p.negative, a % b, least⟩
  | some _, none => if y.isNaN then y else x
  | none, _ => 0.0 / 0.0

end Stencil.Decimal
