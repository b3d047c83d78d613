/-
**Arithmetic on integers.**

An operation on integers of 64 bits gives an integer only if the exact result fits, and then it is
the exact result; else it gives a float, and division fails.  Rounding down starts from a division
whose remainder is not negative, and two operations follow that have no way out if their result does
not fit: they always have one.

Main definitions:

* `Stencil.Value.ExactIf` — an answer that is an integer where a condition holds, and else a float.

Main results:

* `Stencil.Value.power?_eq` — powers are exact, though none that does not fit is computed;
* `Stencil.Value.roundedDown?_eq` — rounding down never leaves the 64 bits;
* `Stencil.Value.floorDiv_eq`, `Stencil.Value.rem_exact`, `Stencil.Value.pow_exact` — division and
  powers;
* `Stencil.Value.arithmetic_exact` — **arithmetic on integers never wraps**.
-/

import Mathlib.Algebra.Ring.Parity
import Mathlib.Data.Rat.Floor
import Stencil.Value.Arithmetic

set_option autoImplicit false

namespace Stencil.Value

/-- An answer that is the integer `n` where a condition holds, and a float elsewhere. -/
structure ExactIf (whole : Prop) (n : Int) (answer : Except TemplateError Value) : Prop where
  exact : whole → answer = .ok (int n)
  inexact : ¬ whole → ∃ x, answer = .ok (float x)

variable {x y : Int}

/-- Integers can always be taken as floats. -/
theorem onFloats_int (op : String) (f : Float → Float → Value) (x y : Int) :
    onFloats op f (int x) (int y) = .ok (f (Decimal.ofInt x) (Decimal.ofInt y)) := rfl

/-! ### Sums, differences and products -/

theorem onNumbers_exact (op : String) (exact' : Int → Int → Int) (f : Float → Float → Float)
    (x y : Int) :
    ExactIf (fits (exact' x y) = true) (exact' x y) (onNumbers op exact' f (int x) (int y)) where
  exact h := by rw [onNumbers, if_pos h]
  inexact h := by
    rw [onNumbers, if_neg h, onFloats_int]
    exact ⟨_, rfl⟩

theorem add_exact (x y : Int) :
    ExactIf (fits (x + y) = true) (x + y) (add (int x) (int y)) :=
  onNumbers_exact "+" (· + ·) (· + ·) x y

theorem sub_exact (x y : Int) :
    ExactIf (fits (x - y) = true) (x - y) (sub (int x) (int y)) :=
  onNumbers_exact "-" (· - ·) (· - ·) x y

theorem mul_exact (x y : Int) :
    ExactIf (fits (x * y) = true) (x * y) (mul (int x) (int y)) :=
  onNumbers_exact "*" (· * ·) (· * ·) x y

theorem neg_exact (x : Int) : ExactIf (fits (-x) = true) (-x) (neg (int x)) where
  exact h := by rw [neg, if_pos h]
  inexact h := by
    rw [neg, if_neg h]
    exact ⟨_, rfl⟩

/-! ### Powers -/

/-- With an exponent of 64 or more, only the powers of zero, one and minus one fit. -/
theorem not_fits_pow {n : Nat} (hx : 2 ≤ x.natAbs) (hn : 64 ≤ n) : ¬ fits (x ^ n) = true := by
  have habs : 2 ^ 64 ≤ (x ^ n).natAbs :=
    calc 2 ^ 64 ≤ 2 ^ n := Nat.pow_le_pow_right (by omega) hn
      _ ≤ x.natAbs ^ n := Nat.pow_le_pow_left hx n
      _ = (x ^ n).natAbs := (Int.natAbs_pow x n).symm
  rw [Bounded.fits_iff]
  omega

/-- The powers of zero, one and minus one only depend on whether the exponent is zero, and on its
parity. -/
theorem pow_small (hx : x.natAbs ≤ 1) (n : Nat) : x ^ min n (2 - n % 2) = x ^ n := by
  obtain rfl | rfl | rfl : x = 0 ∨ x = 1 ∨ x = -1 := by omega
  · rcases Nat.eq_zero_or_pos n with rfl | hn
    · rfl
    · rw [zero_pow (by omega), zero_pow (by omega)]
  · rw [one_pow, one_pow]
  · refine neg_one_pow_congr ?_
    rw [Nat.even_iff, Nat.even_iff]
    omega

/-- Powers are exact, though none that does not fit is computed. -/
theorem power?_eq (x : Int) (n : Nat) : power? x n = Bounded.ofInt? (x ^ n) := by
  have hpow : ∀ m : Nat, Int.pow x m = x ^ m := fun _ => rfl
  unfold power?
  simp only [hpow]
  split
  · next hx =>
    have hfits : fits (x ^ n) = true := by
      have habs : (x ^ n).natAbs ≤ 1 := by
        rw [Int.natAbs_pow]
        exact pow_le_one' hx n
      rw [Bounded.fits_iff]
      omega
    rw [pow_small hx, Bounded.ofInt?_of_fits hfits]
  · next hx =>
    rcases lt_or_ge n 64 with hn | hn
    · simp only [hn, true_and]
      rfl
    · have hover := not_fits_pow (x := x) (by omega) hn
      rw [if_neg fun h => hover h.2, Bounded.ofInt?_eq_none.2 hover]

/-- A power is an integer if its exponent has 32 bits without sign and it fits. -/
theorem pow_exact (x y : Int) :
    ExactIf (0 ≤ y ∧ y < 2 ^ 32 ∧ fits (x ^ y.toNat) = true) (x ^ y.toNat)
      (pow (int x) (int y)) := by
  have hlimit : Int.pow 2 32 = 2 ^ 32 := rfl
  refine ⟨fun ⟨hlow, hhigh, hfits⟩ => ?_, fun h => ?_⟩
  · simp only [pow, power?_eq, Bounded.ofInt?_of_fits hfits, hlimit, hlow, hhigh, and_self, if_true]
  · simp only [pow, power?_eq, hlimit, onFloats_int]
    split
    · next hexponent =>
      rw [Bounded.ofInt?_eq_none.2 fun hfits => h ⟨hexponent.1, hexponent.2, hfits⟩]
      exact ⟨_, rfl⟩
    · exact ⟨_, rfl⟩

/-! ### Division -/

/-- The quotient whose remainder is not negative, less one where the divisor is negative and there is
a remainder, is the quotient rounded down. -/
theorem quotient_adjusted (x y : Int) :
    x / y - (if x % y ≠ 0 ∧ y < 0 then 1 else 0) = ⌊(x : ℚ) / y⌋ := by
  have hfloor : x.fdiv y = ⌊(x : ℚ) / y⌋ := by
    rcases le_total 0 y with hy | hy
    · lift y to Nat using hy
      rw [Int.fdiv_eq_ediv_of_nonneg x (Int.natCast_nonneg _)]
      exact (Rat.floor_intCast_div_natCast x _).symm
    · obtain ⟨n, rfl⟩ : ∃ n : Nat, y = -n := ⟨y.natAbs, by omega⟩
      have hneg : (x : ℚ) / ((-n : Int) : ℚ) = ((-x : Int) : ℚ) / (n : ℚ) := by
        push_cast
        rw [div_neg, neg_div]
      rw [hneg, Rat.floor_intCast_div_natCast, ← Int.fdiv_eq_ediv_of_nonneg _ (Int.natCast_nonneg _),
        ← Int.neg_fdiv_neg, neg_neg]
  rw [← hfloor, Int.fdiv_eq_ediv]
  congr 1
  have hdvd : x % y ≠ 0 ↔ ¬ y ∣ x := not_congr Int.dvd_iff_emod_eq_zero.symm
  by_cases hy : 0 ≤ y <;> by_cases hx : y ∣ x <;> simp [hdvd, hy, hx]

/-- Quotients by minus two and less are far from the limits. -/
theorem quotient_within (hx : fits x = true) (hy : y ≤ -2) :
    -9223372036854775808 < x / y ∧ x / y < 9223372036854775807 := by
  rw [Bounded.fits_iff] at hx
  have hsum : y * (x / y) + x % y = x := Int.mul_ediv_add_emod x y
  have hlow : 0 ≤ x % y := Int.emod_nonneg x (by omega)
  have hhigh : x % y < -y := Int.emod_lt_of_neg x (by omega)
  constructor <;> by_contra hover
  · have hproduct : -2 * (x / y) ≤ y * (x / y) := mul_le_mul_of_nonpos_right hy (by omega)
    omega
  · have hproduct : y * (x / y - 1) ≤ -2 * (x / y - 1) := mul_le_mul_of_nonneg_right hy (by omega)
    rw [mul_sub, mul_one] at hproduct
    omega

/-- The correction of a quotient never decides whether it fits. -/
theorem adjusted_fits_iff (hx : fits x = true) :
    fits (x / y - (if x % y ≠ 0 ∧ y < 0 then 1 else 0)) = true ↔ fits (x / y) = true := by
  split
  · next h =>
    obtain ⟨hrest, hneg⟩ := h
    have hy : y ≤ -2 := by
      by_contra hy
      obtain rfl : y = -1 := by omega
      exact hrest (by simp)
    have hwithin := quotient_within hx hy
    rw [Bounded.fits_iff, Bounded.fits_iff]
    omega
  · rw [sub_zero]

theorem quotient?_of_ne_zero (hy : y ≠ 0) : Bounded.quotient? x y = Bounded.ofInt? (x / y) :=
  if_neg hy

/-- Rounding a quotient down always has a result. -/
theorem roundedDown?_eq (hx : fits x = true) {quotient : Int}
    (h : Bounded.quotient? x y = some quotient) :
    roundedDown? x y quotient = some ⌊(x : ℚ) / y⌋ := by
  have hy : y ≠ 0 := by
    rintro rfl
    cases h
  have hquotient := h
  rw [quotient?_of_ne_zero hy, Bounded.ofInt?_eq_some] at hquotient
  obtain ⟨hfits, rfl⟩ := hquotient
  have hadjusted := Bounded.ofInt?_of_fits ((adjusted_fits_iff hx).2 hfits)
  rw [quotient_adjusted] at hadjusted
  rw [roundedDown?, Bounded.remainder?, h, Option.map_some, Option.bind_eq_bind, Option.bind_some,
    Bounded.sub?, quotient_adjusted, hadjusted]

/-- The quotient rounded down, if it fits. -/
theorem floorQuotient?_eq (hx : fits x = true) (hy : y ≠ 0) :
    floorQuotient? x y = Bounded.ofInt? ⌊(x : ℚ) / y⌋ := by
  rw [floorQuotient?]
  cases hquotient : Bounded.quotient? x y with
  | none =>
      rw [quotient?_of_ne_zero hy, Bounded.ofInt?_eq_none, ← adjusted_fits_iff hx,
        quotient_adjusted] at hquotient
      rw [Bounded.ofInt?_eq_none.2 hquotient]
      rfl
  | some quotient =>
      have hrounded := roundedDown?_eq hx hquotient
      rw [quotient?_of_ne_zero hy, Bounded.ofInt?_eq_some, ← adjusted_fits_iff hx,
        quotient_adjusted] at hquotient
      rw [Bounded.ofInt?_of_fits hquotient.1]
      exact hrounded

/-- Division fails where there is no quotient or it does not fit. -/
theorem floorDiv_eq (hx : fits x = true) :
    floorDiv (int x) (int y) =
      if y = 0 then .error (.ofCause .divisionByZero)
      else if fits ⌊(x : ℚ) / y⌋ then .ok (int ⌊(x : ℚ) / y⌋)
      else .error (.ofCause .quotientOverflow) := by
  by_cases hy : y = 0
  · simp only [floorDiv, hy, if_true]
  · by_cases hfits : fits ⌊(x : ℚ) / y⌋ = true
    · simp only [floorDiv, hy, if_false, floorQuotient?_eq hx hy, Bounded.ofInt?_of_fits hfits, hfits,
        if_true]
    · simp only [floorDiv, hy, if_false, floorQuotient?_eq hx hy, Bounded.ofInt?_eq_none.2 hfits,
        hfits, Bool.false_eq_true, if_false]

/-! ### Remainders -/

/-- The quotient cut toward zero fits, but for one division. -/
theorem fits_tdiv_iff (hx : fits x = true) (hy : y ≠ 0) :
    fits (x.tdiv y) = true ↔ ¬ (x = -2 ^ 63 ∧ y = -1) := by
  have habs : (x.tdiv y).natAbs = x.natAbs / y.natAbs := Int.natAbs_tdiv x y
  rw [Bounded.fits_iff] at hx ⊢
  rcases Nat.lt_or_ge y.natAbs 2 with hsmall | hlarge
  · obtain rfl | rfl : y = 1 ∨ y = -1 := by omega
    · rw [Int.tdiv_one]
      omega
    · rw [Int.tdiv_neg, Int.tdiv_one]
      omega
  · have hhalf : x.natAbs / y.natAbs ≤ x.natAbs / 2 := Nat.div_le_div_left hlarge (by omega)
    omega

/-- The remainder of the quotient cut toward zero is less than the divisor and has the sign of the
dividend. -/
theorem tmod_spec (x : Int) (hy : y ≠ 0) :
    y ∣ x - x.tmod y ∧ |x.tmod y| < |y| ∧ 0 ≤ x * x.tmod y := by
  refine ⟨⟨x.tdiv y, by rw [Int.tmod_def]; ring⟩, ?_, ?_⟩
  · have habs := Int.natAbs_tmod x y
    have hless := Nat.mod_lt x.natAbs (show 0 < y.natAbs by omega)
    rw [Int.abs_eq_natAbs, Int.abs_eq_natAbs]
    omega
  · rcases le_total 0 x with hx | hx
    · exact mul_nonneg hx (Int.tmod_nonneg y hx)
    · have hneg : 0 ≤ (-x).tmod y := Int.tmod_nonneg y (by omega)
      rw [Int.neg_tmod] at hneg
      exact mul_nonneg_of_nonpos_of_nonpos hx (by omega)

/-- A remainder is a float only for a divisor of zero and for the one quotient that does not fit. -/
theorem rem_exact (hx : fits x = true) :
    (y = 0 ∨ x = -2 ^ 63 ∧ y = -1 → ∃ f, rem (int x) (int y) = .ok (float f)) ∧
    (¬ (y = 0 ∨ x = -2 ^ 63 ∧ y = -1) → ∃ r, rem (int x) (int y) = .ok (int r) ∧
      y ∣ x - r ∧ |r| < |y| ∧ 0 ≤ x * r) := by
  by_cases hy : y = 0
  · refine ⟨fun _ => ?_, fun h => absurd (.inl hy) h⟩
    simp only [rem, hy, if_true]
    exact ⟨_, rfl⟩
  · have hfits := fits_tdiv_iff hx hy
    refine ⟨fun h => ?_, fun h => ⟨_, ?_, tmod_spec x hy⟩⟩
    · have hover : ¬ fits (x.tdiv y) = true := fun hfit => hfits.1 hfit (h.resolve_left hy)
      rw [rem, if_neg hy, if_neg hover, onFloats_int]
      exact ⟨_, rfl⟩
    · rw [rem, if_neg hy, if_pos (hfits.2 fun hmin => h (.inr hmin))]

/-! ### All operators -/

/-- **Arithmetic on integers never wraps.**  Sums, differences, products and negations of integers
of 64 bits are integers exactly if the exact result fits, and then they are the exact result; so are
powers with an exponent of 32 bits.  A quotient is rounded down, and fails for a divisor of zero and
if it does not fit; the two operations that rounding needs after the first quotient always have a
result.  A remainder has the sign of the dividend. -/
theorem arithmetic_exact (hx : fits x = true) :
    ExactIf (fits (x + y) = true) (x + y) (add (int x) (int y)) ∧
    ExactIf (fits (x - y) = true) (x - y) (sub (int x) (int y)) ∧
    ExactIf (fits (x * y) = true) (x * y) (mul (int x) (int y)) ∧
    (floorDiv (int x) (int y) =
      if y = 0 then .error (.ofCause .divisionByZero)
      else if fits ⌊(x : ℚ) / y⌋ then .ok (int ⌊(x : ℚ) / y⌋)
      else .error (.ofCause .quotientOverflow)) ∧
    (∀ quotient, Bounded.quotient? x y = some quotient →
      roundedDown? x y quotient = some ⌊(x : ℚ) / y⌋) ∧
    (y = 0 ∨ x = -2 ^ 63 ∧ y = -1 → ∃ f, rem (int x) (int y) = .ok (float f)) ∧
    (¬ (y = 0 ∨ x = -2 ^ 63 ∧ y = -1) → ∃ r, rem (int x) (int y) = .ok (int r) ∧
      y ∣ x - r ∧ |r| < |y| ∧ 0 ≤ x * r) ∧
    ExactIf (0 ≤ y ∧ y < 2 ^ 32 ∧ fits (x ^ y.toNat) = true) (x ^ y.toNat)
      (pow (int x) (int y)) ∧
    ExactIf (fits (-x) = true) (-x) (neg (int x)) :=
  ⟨add_exact x y, sub_exact x y, mul_exact x y, floorDiv_eq hx, fun _ => roundedDown?_eq hx,
    (rem_exact hx).1, (rem_exact hx).2, pow_exact x y, neg_exact x⟩

/-- Next to the least integer, with a negative divisor and a remainder. -/
theorem arithmetic_exact_negative :
    fits (-9223372036854775807) = true ∧
    (∃ f, add (int (-9223372036854775807)) (int (-2)) = .ok (float f)) ∧
    sub (int (-9223372036854775807)) (int (-2)) = .ok (int (-9223372036854775805)) ∧
    floorDiv (int (-9223372036854775807)) (int (-2)) = .ok (int 4611686018427387903) ∧
    roundedDown? (-9223372036854775807) (-2) 4611686018427387904 = some 4611686018427387903 ∧
    (∃ r, rem (int (-9223372036854775807)) (int (-2)) = .ok (int r) ∧
      (-2) ∣ -9223372036854775807 - r ∧ |r| < |(-2 : Int)| ∧ 0 ≤ -9223372036854775807 * r) ∧
    neg (int (-9223372036854775807)) = .ok (int 9223372036854775807) := by
  have hx : fits (-9223372036854775807) = true := by decide
  have hfloor : ⌊((-9223372036854775807 : Int) : ℚ) / ((-2 : Int) : ℚ)⌋ = 4611686018427387903 := by
    rw [← quotient_adjusted]
    decide
  obtain ⟨hadd, hsub, -, hdiv, hrounded, -, hrem, -, hneg⟩ := @arithmetic_exact _ (-2) hx
  rw [hfloor] at hdiv hrounded
  exact ⟨hx, hadd.inexact (by decide), hsub.exact (by decide), hdiv, hrounded _ (by decide),
    hrem (by decide), hneg.exact (by decide)⟩

end Stencil.Value
