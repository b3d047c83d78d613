/-
**Ranges.**

The number of items of a range is computed before any of them is, by one division in 128 bits; the
items are then made by a walk in 64 bits.  Both agree with the progression itself: a range is refused
if more than a million of its numbers lie before the end, and else holds exactly these.

Main definitions:

* `Stencil.Value.RangeArguments` — one bound, two bounds, or two bounds and a step;
* `Stencil.Value.RangeInRange` — nothing that is computed on the way leaves its range.

Main results:

* `Stencil.Value.rangeOf_eq` — a range by the number of its items;
* `Stencil.Value.length_between` — the walk makes as many items as were computed;
* `Stencil.Value.range_exact` — **ranges are exact and bounded**, for all bounds and steps of 64
  bits.
-/

import Stencil.Proofs.Numbers.Walks

set_option autoImplicit false

namespace Stencil.Value

open Progression

variable {start stop step : Int}

/-- What the arguments of a range say: where it starts, the end before which it stops, and the step. -/
inductive RangeArguments : List Value → Int → Int → Int → Prop where
  | bound (stop : Int) : RangeArguments [int stop] 0 stop 1
  | bounds (start stop : Int) : RangeArguments [int start, int stop] start stop 1
  | stepped (start stop step : Int) :
      RangeArguments [int start, int stop, int step] start stop step

/-- A range of integers is the range of their bounds and step. -/
theorem range_eq_rangeOf {args : CallArgs} (h : RangeArguments args.positional start stop step) :
    range args = rangeOf start stop step := by
  rcases args with ⟨positional, keywords⟩
  cases h <;> rfl

/-- The numbers that are computed on the way to the length of a range. -/
def rangeSums (start stop step : Int) : List Int :=
  let way := (stop - start) * step.sign
  [stop - start, way, step.natAbs, way + step.natAbs, way + step.natAbs - 1]

/-- Nothing that is computed for a range leaves its range. -/
structure RangeInRange (start stop step : Int) : Prop where
  /-- The length is computed in 128 bits. -/
  length : ∀ n ∈ rangeSums start stop step, -2 ^ 127 ≤ n ∧ n < 2 ^ 127
  /-- The items are walked through in 64 bits. -/
  walk : NeverWraps start stop step

/-- The way is at most that between the two limits, and a step is no longer than a limit. -/
theorem rangeSums_within (hstart : fits start = true) (hstop : fits stop = true)
    (hstep : fits step = true) : ∀ n ∈ rangeSums start stop step, -2 ^ 127 ≤ n ∧ n < 2 ^ 127 := by
  rw [Bounded.fits_iff] at hstart hstop hstep
  have hway : (stop - start) * step.sign = stop - start ∨ (stop - start) * step.sign = 0 ∨
      (stop - start) * step.sign = -(stop - start) := by
    rcases Int.lt_trichotomy step 0 with hneg | rfl | hpos
    · exact .inr (.inr (by rw [Int.sign_eq_neg_one_of_neg hneg, mul_neg_one]))
    · exact .inr (.inl (by simp))
    · exact .inl (by rw [Int.sign_eq_one_of_pos hpos, mul_one])
  intro n hn
  simp only [rangeSums, List.mem_cons, List.not_mem_nil, or_false] at hn
  omega

theorem range_inRange (hstart : fits start = true) (hstop : fits stop = true)
    (hstep : fits step = true) (hzero : step ≠ 0) : RangeInRange start stop step where
  length := rangeSums_within hstart hstop hstep
  walk := neverWraps hzero hstart hstop

/-- The walk makes as many items as were computed before it. -/
theorem length_between (hstart : fits start = true) (hstop : fits stop = true) (hzero : step ≠ 0) :
    (between start stop step).length = rangeLength start stop step := by
  rw [between_eq_terms hzero hstart hstop]
  simp [terms]

/-- A range, by the number of integers before its end. -/
theorem rangeOf_eq (hstart : fits start = true) (hstop : fits stop = true) (hzero : step ≠ 0) :
    rangeOf start stop step =
      if rangeLimit < (members start stop step).ncard then
        .error (.ofCause (.rangeLength (members start stop step).ncard rangeLimit))
      else .ok (array ((terms start step (members start stop step).ncard).map int)) := by
  rw [(ncard_members hzero).2, ← between_eq_terms hzero hstart hstop, rangeOf, if_neg hzero]

/-- **Ranges are exact and bounded.**  For bounds and a step of 64 bits, let `n` be how many of the
integers `start`, `start + step`, … lie before `stop` in the direction of the step.  If `n` is more
than a million, the range is refused and the refusal names `n`; else it holds exactly these `n`
integers, in order.  The length that is computed before is that of the walk, and no sum on the way
leaves its range. -/
theorem range_exact {args : CallArgs} (hargs : RangeArguments args.positional start stop step)
    (hstart : fits start = true) (hstop : fits stop = true) (hstep : fits step = true)
    (hzero : step ≠ 0) :
    (members start stop step).Finite ∧
    (1000000 < (members start stop step).ncard → range args =
      .error (.ofCause (.rangeLength (members start stop step).ncard 1000000))) ∧
    ((members start stop step).ncard ≤ 1000000 → range args =
      .ok (array ((terms start step (members start stop step).ncard).map int))) ∧
    rangeLength start stop step = (walk step stop start #[]).size ∧
    rangeLength start stop step = (members start stop step).ncard ∧
    RangeInRange start stop step := by
  have hrange := rangeOf_eq hstart hstop hzero
  rw [← range_eq_rangeOf hargs, show rangeLimit = 1000000 from rfl] at hrange
  refine ⟨(ncard_members hzero).1, fun hmany => ?_, fun hfew => ?_, ?_, (ncard_members hzero).2.symm,
    range_inRange hstart hstop hstep hzero⟩
  · rw [hrange, if_pos hmany]
  · rw [hrange, if_neg (Nat.not_lt.2 hfew)]
  · rw [← length_between hstart hstop hzero, between, Array.length_toList]

/-- From the greatest integer down to the least one: the sum after the second item does not fit. -/
theorem range_exact_downwards :
    RangeArguments [int 9223372036854775807, int (-9223372036854775808), int (-9223372036854775808)]
        9223372036854775807 (-9223372036854775808) (-9223372036854775808) ∧
      fits 9223372036854775807 = true ∧ fits (-9223372036854775808) = true ∧
      (members 9223372036854775807 (-9223372036854775808) (-9223372036854775808)).ncard = 2 ∧
      range ⟨[int 9223372036854775807, int (-9223372036854775808), int (-9223372036854775808)], []⟩ =
        .ok (array [int 9223372036854775807, int (-1)]) := by
  have hargs := RangeArguments.stepped 9223372036854775807 (-9223372036854775808)
    (-9223372036854775808)
  have hhigh : fits 9223372036854775807 = true := by decide
  have hlow : fits (-9223372036854775808) = true := by decide
  obtain ⟨-, -, hfew, -, hcount, -⟩ := @range_exact _ _ _ ⟨[int 9223372036854775807,
    int (-9223372036854775808), int (-9223372036854775808)], []⟩ hargs hhigh hlow hlow (by decide)
  have hnumber : (members 9223372036854775807 (-9223372036854775808)
      (-9223372036854775808)).ncard = 2 := by
    rw [← hcount]
    decide
  rw [hnumber] at hfew
  exact ⟨hargs, hhigh, hlow, hnumber, hfew (by decide)⟩

end Stencil.Value
