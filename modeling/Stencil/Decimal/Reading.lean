/-
**Reading numbers.**

Main definitions:

* `Stencil.Decimal.natOfDigits` — the number that a list of digits writes;
* `Stencil.Decimal.ofScientific` — the float nearest to a decimal, whatever its exponent;
* `Stencil.Decimal.float?` — the float that a whole text writes: an optional sign, then `inf`,
  `infinity` or `nan` in any case, or digits with an optional point and an optional exponent, with
  at least one digit beside the point.
-/

import Stencil.Decimal.Double

set_option autoImplicit false

namespace Stencil.Decimal

/-- The number that a list of decimal digits writes. -/
def natOfDigits (digits : List Char) : Nat :=
  digits.foldl (fun n c => 10 * n + (c.toNat - 48)) 0

/-- The float nearest to `n` times ten to the power `e`.  An exponent that no float can have is
not computed with. -/
def ofScientific (n : Nat) (e : Int) : Float :=
  let size := (Nat.toDigits 10 n).length + e
  if n = 0 ∨ size < -400 then 0.0
  else if 400 < size then 1.0 / 0.0
  else if 0 ≤ e then Float.ofScientific n false e.toNat
  else Float.ofScientific n true (-e).toNat

/-- A decimal exponent: a sign and at least one digit. -/
def exponent? (s : List Char) : Option Int :=
  let (negative, digits) :=
    match s with
    | '-' :: rest => (true, rest)
    | '+' :: rest => (false, rest)
    | rest => (false, rest)
  if digits.isEmpty || !digits.all Char.isDigit then none
  else some (if negative then -(natOfDigits digits : Int) else natOfDigits digits)

/-- A decimal without sign: digits, an optional point and an optional exponent. -/
def unsigned? (s : List Char) : Option Float :=
  let whole := s.takeWhile Char.isDigit
  let rest := s.dropWhile Char.isDigit
  let (fraction, rest) :=
    match rest with
    | '.' :: rest => (rest.takeWhile Char.isDigit, rest.dropWhile Char.isDigit)
    | rest => ([], rest)
  let digits := whole ++ fraction
  if digits.isEmpty then none
  else
    let value (e : Int) := ofScientific (natOfDigits digits) (e - fraction.length)
    match rest with
    | [] => some (value 0)
    | c :: rest => if c = 'e' ∨ c = 'E' then (exponent? rest).map value else none

/-- The float that a whole text writes. -/
def float? (s : List Char) : Option Float :=
  let (negative, body) :=
    match s with
    | '-' :: rest => (true, rest)
    | '+' :: rest => (false, rest)
    | rest => (false, rest)
  let word := body.map Char.toLower
  let size :=
    if word = "inf".toList ∨ word = "infinity".toList then some (1.0 / 0.0)
    else if word = "nan".toList then some (0.0 / 0.0)
    else unsigned? body
  size.map fun x => if negative then -x else x

end Stencil.Decimal
