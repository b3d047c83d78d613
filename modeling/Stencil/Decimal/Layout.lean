/-
**Writing floats.**

The digits of a float are the fewest that name it (`Stencil.Decimal.shortest`).  Where the point
goes, when an exponent is written, which of two equally near decimals counts and what stands for
the floats that are not finite is a matter of layout.

Main definitions:

* `Stencil.Decimal.Layout` — the choices that a layout makes;
* `Stencil.Decimal.Layout.write` — the text of a float in a layout;
* `Stencil.Decimal.Layout.plain` — never an exponent, and a whole number has no point;
* `Stencil.Decimal.Layout.json` — an exponent from `1e+16` on and below `1e-5`, and always a point
  or an exponent.
-/

import Stencil.Decimal.Shortest

set_option autoImplicit false

namespace Stencil.Decimal

/-- The choices that a layout makes. -/
structure Layout where
  /-- Whether a number is written without exponent; the argument is the number of digits before
  the point, negative for zeros after it. -/
  positional : Int → Bool
  /-- Whether a whole number ends in `.0`. -/
  wholePoint : Bool
  /-- Which of two equally near decimals is written. -/
  tie : Tie
  notNumber : String
  infinity : String
  minusInfinity : String

namespace Layout

/-- Digits with a point after the first `point` of them, filled up with zeros. -/
def pointed (digits : List Char) (point : Int) (wholePoint : Bool) : List Char :=
  let whole := Int.ofNat digits.length ≤ point
  if whole then
    digits ++ List.replicate (point - digits.length).toNat '0'
      ++ (if wholePoint then ['.', '0'] else [])
  else if 0 < point then
    digits.take point.toNat ++ '.' :: digits.drop point.toNat
  else
    '0' :: '.' :: List.replicate (-point).toNat '0' ++ digits

/-- Digits with a point after the first and an exponent. -/
def scientific (digits : List Char) (point : Int) : List Char :=
  let mantissa :=
    match digits with
    | d :: e :: rest => d :: '.' :: e :: rest
    | short => short
  let exponent := point - 1
  let sign := if exponent < 0 then '-' else '+'
  mantissa ++ 'e' :: sign :: Nat.toDigits 10 exponent.natAbs

/-- The digits of a number that is a multiple of ten to the power `k`, without the zeros at their
end, and the number of them before the point. -/
def significant (n : Nat) (k : Int) : List Char × Int :=
  let digits := Nat.toDigits 10 n
  ((digits.reverse.dropWhile (· == '0')).reverse, digits.length + k)

/-- The text of a float. -/
def write (layout : Layout) (x : Float) : String :=
  match parts? x with
  | none =>
    if x.isNaN then layout.notNumber
    else if isNegative x then layout.minusInfinity
    else layout.infinity
  | some p =>
    let sign := if p.negative then ['-'] else []
    if p.mantissa = 0 then String.ofList (sign ++ pointed ['0'] 1 layout.wholePoint)
    else
      let (n, k) := shortest layout.tie p
      let (digits, point) := significant n k
      let body :=
        if layout.positional point then pointed digits point layout.wholePoint
        else scientific digits point
      String.ofList (sign ++ body)

/-- Never an exponent; a whole number has no point, and a tie goes up. -/
def plainLayout : Layout := ⟨fun _ => true, false, .up, "NaN", "inf", "-inf"⟩

/-- An exponent from `1e+16` on and below `1e-5`; what is not finite is `null`, and a tie goes to
the even digit. -/
def jsonLayout : Layout :=
  ⟨fun point => -5 < point && point ≤ 16, true, .even, "null", "null", "null"⟩

/-- The text of a float without an exponent. -/
def plain (x : Float) : String := plainLayout.write x

/-- The text of a float in JSON. -/
def json (x : Float) : String := jsonLayout.write x

end Layout

end Stencil.Decimal
