/-
**The order of integers.**

Two integers are compared as floats, also where `==` finds them not strictly equal.  So the comparisons never
contradict each other: one of `<`, `==` and `>` holds, and `<=` and `>=` are what they say.  The one that
holds is that of the integers, or it is `==`; and it is that of the integers up to `2 ^ 53`.

Main results:

* `Stencil.Value.compareFloats?_eq` — floats are compared by sign, exponent and mantissa;
* `Stencil.Value.compareFloats?_ofInt` — integers as floats;
* `Stencil.Value.looseEq_int_iff` — what `==` says of integers;
* `Stencil.Value.holds_int` — **what the comparison operators say of integers**.
-/

import Stencil.Proofs.Numbers.Doubles
import Stencil.Value.Equality

set_option autoImplicit false

namespace Stencil.Value

/-! ### Floats -/

theorem float_lt_iff (x y : Float) :
    x < y ↔ x.toModel.unpack.compare y.toModel.unpack = some .lt := by
  change decide ((x.toModel.unpack.compare y.toModel.unpack == some .lt) = true) = true ↔ _
  rw [decide_eq_true_iff, beq_iff_eq]

theorem float_beq_iff (x y : Float) :
    (x == y) = true ↔ x.toModel.unpack.compare y.toModel.unpack = some .eq := by
  change (x.toModel.unpack.compare y.toModel.unpack == some .eq) = true ↔ _
  rw [beq_iff_eq]

/-- Floats are compared by sign, exponent and mantissa. -/
theorem compareFloats?_eq (x y : Float) :
    compareFloats? x y = x.toModel.unpack.compare y.toModel.unpack := by
  have hgt : y < x ↔ x.toModel.unpack.compare y.toModel.unpack = some .gt := by
    rw [float_lt_iff, Decimal.compare_swap x.toModel.unpack]
    rcases x.toModel.unpack.compare y.toModel.unpack with - | - | - | - <;> simp
  simp only [compareFloats?, float_lt_iff x y, hgt, float_beq_iff]
  rcases x.toModel.unpack.compare y.toModel.unpack with - | - | - | - <;> rfl

/-! ### Integers -/

variable {a b : Int}

theorem natAbs_lt_of_fits (ha : fits a = true) : a.natAbs < 2 ^ 64 := by
  simp only [fits, Bool.and_eq_true, decide_eq_true_eq] at ha
  have hpow : Int.pow 2 63 = 9223372036854775808 := rfl
  omega

/-- Integers are compared as floats: their order, or not told apart, which does not happen up to `2 ^ 53`. -/
theorem compareFloats?_ofInt (ha : fits a = true) (hb : fits b = true) :
    ∃ o, compareFloats? (Decimal.ofInt a) (Decimal.ofInt b) = some o ∧ (o = compare a b ∨ o = .eq) ∧
      (a.natAbs ≤ 2 ^ 53 → b.natAbs ≤ 2 ^ 53 → o = compare a b) := by
  rw [compareFloats?_eq, Decimal.unpack_ofInt (natAbs_lt_of_fits ha),
    Decimal.unpack_ofInt (natAbs_lt_of_fits hb)]
  exact Decimal.compare_unpacked a b

theorem compare?_int (a b : Int) :
    compare? (int a) (int b) = compareFloats? (Decimal.ofInt a) (Decimal.ofInt b) := rfl

/-- What `==` says of integers: they are equal, or they are not told apart as floats. -/
theorem looseEq_int_iff (a b : Int) : looseEq (int a) (int b) = true ↔
    a = b ∨ compare? (int a) (int b) = some .eq := by
  have hloose : looseEq (int a) (int b) =
      if a == b then true else Decimal.ofInt a == Decimal.ofInt b := rfl
  rw [compare?_int, compareFloats?_eq, ← float_beq_iff, hloose]
  split <;> simp_all

/-- **What the comparison operators say of integers.**  They agree with one order of the two: that of the
integers, unless it makes them equal, and always that of the integers up to `2 ^ 53`. -/
theorem holds_int (ha : fits a = true) (hb : fits b = true) :
    ∃ o, (o = compare a b ∨ o = .eq) ∧
      (a.natAbs ≤ 2 ^ 53 → b.natAbs ≤ 2 ^ 53 → o = compare a b) ∧
      compare? (int a) (int b) = some o ∧
      ∀ op, holds op (int a) (int b) = match op with
        | .lt => o == .lt
        | .eq => o == .eq
        | .gt => o == .gt
        | .le => o != .gt
        | .ge => o != .lt
        | .ne => o != .eq
        | .strictEq => a == b
        | .strictNe => a != b := by
  obtain ⟨o, ho, hor, hsmall⟩ := compareFloats?_ofInt ha hb
  rw [← compare?_int] at ho
  have hloose : looseEq (int a) (int b) = (o == .eq) := by
    rw [Bool.eq_iff_iff, looseEq_int_iff, ho, beq_iff_eq, Option.some_inj, or_iff_right_iff_imp]
    rintro rfl
    simpa using hor
  refine ⟨o, hor, hsmall, ho, fun op => ?_⟩
  cases op with
  | lt | gt | le | ge =>
      rw [holds, ho]
      cases o <;> rfl
  | eq => exact hloose
  | ne => exact congrArg (!·) hloose
  | strictEq | strictNe => rfl

/-- So exactly one of `<`, `==` and `>` holds of two integers, and the other two operators follow from them. -/
theorem holds_int_one (ha : fits a = true) (hb : fits b = true) :
    (∃! op, op ∈ [Comparison.lt, .eq, .gt] ∧ holds op (int a) (int b) = true) ∧
      holds .le (int a) (int b) = (holds .lt (int a) (int b) || holds .eq (int a) (int b)) ∧
      holds .ge (int a) (int b) = (holds .gt (int a) (int b) || holds .eq (int a) (int b)) := by
  obtain ⟨o, -, -, -, h⟩ := holds_int ha hb
  simp only [h]
  cases o with
  | lt => exact ⟨⟨.lt, by simp, by simp +contextual⟩, rfl, rfl⟩
  | eq => exact ⟨⟨.eq, by simp, by simp +contextual⟩, rfl, rfl⟩
  | gt => exact ⟨⟨.gt, by simp, by simp +contextual⟩, rfl, rfl⟩

-- The first two integers that are not told apart.
example : compare? (int (2 ^ 53)) (int (2 ^ 53 + 1)) = some .eq := by decide +kernel

end Stencil.Value
