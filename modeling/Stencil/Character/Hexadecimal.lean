/-
**Hexadecimal digits.**

Main definitions:

* `Stencil.Character.hexValue?` — the value of a digit;
* `Stencil.Character.hexNumber?` — the number that some digits write.
-/

set_option autoImplicit false

namespace Stencil.Character

/-- The value of a hexadecimal digit. -/
def hexValue? (c : Char) : Option Nat :=
  if '0' ≤ c ∧ c ≤ '9' then some (c.toNat - 48)
  else if 'a' ≤ c ∧ c ≤ 'f' then some (c.toNat - 87)
  else if 'A' ≤ c ∧ c ≤ 'F' then some (c.toNat - 55)
  else none

/-- The number that some hexadecimal digits write. -/
def hexNumber? (digits : List Char) : Option Nat :=
  digits.foldlM (fun n c => (hexValue? c).map (16 * n + ·)) 0

end Stencil.Character
