/-
**Floats as their bits.**

A float is written without loss as the sixteen hexadecimal digits of its bits, the sign first.  All
floats that are not numbers are written alike.

Main definitions:

* `Stencil.Decimal.hexBits`, `Stencil.Decimal.ofHexBits?` — writing and reading.
-/

import Stencil.Character.Hexadecimal

set_option autoImplicit false

namespace Stencil.Decimal

/-- The bits of a float as digits. -/
def hexBits (x : Float) : String :=
  if x.isNaN then "nan"
  else
    let digits := Nat.toDigits 16 x.toBits.toNat
    String.ofList (List.replicate (16 - digits.length) '0' ++ digits)

/-- The float whose bits are written. -/
def ofHexBits? (s : String) : Option Float :=
  let digits := s.toList
  if s = "nan" then some (0.0 / 0.0)
  else if digits.length = 16 then
    (Character.hexNumber? digits).map fun n => Float.ofBits (UInt64.ofNat n)
  else none

end Stencil.Decimal
