/-
**Operations on integers of 64 bits.**

An operation is carried out exactly; where its result does not fit into 64 bits, there is none.

Main definitions:

* `Stencil.Bounded.ofInt?` — an integer, if it fits;
* `Stencil.Bounded.add?`, `Stencil.Bounded.sub?` — the sum and the difference;
* `Stencil.Bounded.quotient?`, `Stencil.Bounded.remainder?` — the division whose remainder is never
  negative.
-/

import Stencil.Value

set_option autoImplicit false

namespace Stencil.Bounded

/-- An integer, if it fits into 64 bits. -/
def ofInt? (n : Int) : Option Int := if Value.fits n then some n else none

/-- The sum, if it fits. -/
def add? (x y : Int) : Option Int := ofInt? (x + y)

/-- The difference, if it fits. -/
def sub? (x y : Int) : Option Int := ofInt? (x - y)

/-- The quotient of the division whose remainder is not negative; a divisor of zero has none. -/
def quotient? (x y : Int) : Option Int := if y = 0 then none else ofInt? (x / y)

/-- The remainder of the same division, which has one only where it has a quotient. -/
def remainder? (x y : Int) : Option Int := (quotient? x y).map fun _ => x % y

/-! ### Results -/

/-- The integers that fit, in the form that linear arithmetic knows. -/
theorem fits_iff {n : Int} :
    Value.fits n = true ↔ -9223372036854775808 ≤ n ∧ n ≤ 9223372036854775807 := by
  have hlimit : Int.pow 2 63 = 9223372036854775808 := by decide
  simp only [Value.fits, hlimit, Bool.and_eq_true, decide_eq_true_eq]
  omega

theorem ofInt?_of_fits {n : Int} (h : Value.fits n = true) : ofInt? n = some n := if_pos h

theorem ofInt?_eq_some {n m : Int} : ofInt? n = some m ↔ Value.fits n = true ∧ n = m := by
  simp [ofInt?]

theorem ofInt?_eq_none {n : Int} : ofInt? n = none ↔ ¬ Value.fits n = true := by
  simp [ofInt?]

theorem add?_eq_some {x y m : Int} : add? x y = some m ↔ Value.fits (x + y) = true ∧ x + y = m :=
  ofInt?_eq_some

theorem add?_eq_none {x y : Int} : add? x y = none ↔ ¬ Value.fits (x + y) = true :=
  ofInt?_eq_none

end Stencil.Bounded
