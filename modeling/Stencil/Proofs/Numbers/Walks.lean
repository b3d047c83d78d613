/-
**Walks in equal steps.**

A slice and a range both walk from a first number in steps of one size until they come to a last
one, and stop early where the next number would not fit into 64 bits.  Stopping early loses
nothing: a sum that does not fit is not before a last number that does.  So a walk gives exactly
the numbers of the progression that lie before its end, and their number is the way divided by the
size of a step, rounded up.

Main definitions:

* `Stencil.Progression.terms` — the first numbers of a progression;
* `Stencil.Progression.members` — the numbers of a progression before an end, as a set;
* `Stencil.Progression.NeverWraps` — no sum of a walk is taken that does not fit.

Main results:

* `Stencil.Progression.walk_next` — one step of a walk;
* `Stencil.Progression.walk_eq_terms` — a whole walk;
* `Stencil.Progression.isBefore_term_iff` — which numbers of a progression lie before its end;
* `Stencil.Progression.members_eq_terms`, `Stencil.Progression.ncard_members` — these numbers and
  how many they are;
* `Stencil.Progression.neverWraps` — walks between numbers of 64 bits never wrap.
-/

import Mathlib.Data.Set.Card
import Mathlib.Tactic.Positivity
import Mathlib.Tactic.Ring
import Stencil.Value.Slice

set_option autoImplicit false

namespace Stencil.Progression

variable {step stop i : Int}

/-! ### The end of a walk -/

theorem isBefore_iff : isBefore step stop i = true ↔ 0 < step ∧ i < stop ∨ step < 0 ∧ stop < i := by
  simp [isBefore]

/-- Where the next number does not fit, it is not before the end. -/
theorem not_isBefore_of_add?_eq_none (hi : Value.fits i = true) (hstop : Value.fits stop = true)
    (hsum : Bounded.add? i step = none) : isBefore step stop (i + step) = false := by
  have hover := Bounded.add?_eq_none.1 hsum
  rw [Bounded.fits_iff] at hi hstop hover
  rw [Bool.eq_false_iff, ne_eq, isBefore_iff]
  omega

/-- A number of a progression that lies before the end lies between both ends. -/
theorem within_of_isBefore {start : Int} (k : Nat)
    (h : isBefore step stop (start + k * step) = true) :
    0 < step ∧ start ≤ start + k * step ∧ start + k * step < stop ∨
      step < 0 ∧ start + k * step ≤ start ∧ stop < start + k * step := by
  rcases isBefore_iff.1 h with ⟨hpos, hlt⟩ | ⟨hneg, hlt⟩
  · have hway : 0 ≤ (k : Int) * step := by positivity
    exact .inl ⟨hpos, by omega, hlt⟩
  · have hway : (k : Int) * step ≤ 0 := mul_nonpos_of_nonneg_of_nonpos (by omega) hneg.le
    exact .inr ⟨hneg, by omega, hlt⟩

/-- A walk that is at its end. -/
theorem walk_of_not_isBefore {out : Array Int} (h : isBefore step stop i = false) :
    walk step stop i out = out := by
  rw [walk, h]
  rfl

/-- One step of a walk: it goes on from the exact sum. -/
theorem walk_next {out : Array Int} (hi : Value.fits i = true) (hstop : Value.fits stop = true)
    (h : isBefore step stop i = true) :
    walk step stop i out = walk step stop (i + step) (out.push i) := by
  rw [walk, if_pos h]
  split
  · next next hnext => rw [(Bounded.add?_eq_some.1 hnext).2]
  · next hnone =>
    exact (walk_of_not_isBefore (not_isBefore_of_add?_eq_none hi hstop hnone)).symm

/-! ### Whole walks -/

/-- The first `n` numbers from `first` in steps of `step`. -/
def terms (first step : Int) (n : Nat) : List Int :=
  (List.range n).map fun k : Nat => first + k * step

theorem terms_succ (first step : Int) (n : Nat) :
    terms first step (n + 1) = first :: terms (first + step) step n := by
  simp only [terms, List.range_succ_eq_map, List.map_cons, List.map_map, Nat.cast_zero, zero_mul,
    add_zero, List.cons.injEq, true_and]
  refine List.map_congr_left fun k _ => ?_
  simp only [Function.comp_apply, Nat.cast_succ]
  ring

theorem getElem?_terms (first step : Int) (n k : Nat) :
    (terms first step n)[k]? = if k < n then some (first + k * step) else none := by
  rw [terms, List.getElem?_map]
  split
  · next h => simp [List.getElem?_range h]
  · next h => simpa using h

/-- A whole walk, if the first `n` numbers are those before its end. -/
theorem walk_eq_terms {n : Nat} {out : Array Int} (hi : 0 < n → Value.fits i = true)
    (hstop : Value.fits stop = true)
    (h : ∀ k : Nat, isBefore step stop (i + k * step) = true ↔ k < n) :
    walk step stop i out = out ++ (terms i step n).toArray := by
  induction n generalizing i out with
  | zero =>
      have hend : isBefore step stop i = false := by simpa using h 0
      rw [walk_of_not_isBefore hend]
      simp [terms]
  | succ n ih =>
      have hbefore : isBefore step stop i = true := by simpa using h 0
      have hrest : ∀ k : Nat, isBefore step stop (i + step + k * step) = true ↔ k < n := by
        intro k
        have hk := h (k + 1)
        rw [Nat.cast_succ, show i + ((k : Int) + 1) * step = i + step + k * step by ring] at hk
        rw [hk, Nat.add_lt_add_iff_right]
      -- the next number fits if it is one of those before the end, and else nobody asks
      have hnext : 0 < n → Value.fits (i + step) = true := by
        intro hn
        have hone : isBefore step stop (i + step) = true := by simpa using (hrest 0).2 hn
        by_contra hover
        have hend := not_isBefore_of_add?_eq_none (hi n.succ_pos) hstop (Bounded.add?_eq_none.2 hover)
        exact Bool.false_ne_true (hend.symm.trans hone)
      rw [walk_next (hi n.succ_pos) hstop hbefore, ih hnext hrest, terms_succ]
      simp

/-! ### The numbers before the end -/

/-- Divided by the size of a step and rounded up, a way has room for as many steps as end before
it does. -/
theorem lt_roundedUp_iff (way : Int) {size : Int} (hsize : 0 < size) (k : Nat) :
    (k < ((way + size - 1) / size).toNat) ↔ k * size < way := by
  have hquotient : (k : Int) + 1 ≤ (way + size - 1) / size ↔ (k + 1) * size ≤ way + size - 1 :=
    Int.le_ediv_iff_mul_le hsize
  have hsplit : ((k : Int) + 1) * size = k * size + size := by ring
  rw [hsplit] at hquotient
  omega

/-- The numbers of a progression that lie before its end are the first ones, as many as the way has
room for. -/
theorem isBefore_term_iff {start : Int} (hstep : step ≠ 0) (k : Nat) :
    isBefore step stop (start + k * step) = true ↔ k < Value.rangeLength start stop step := by
  have hlength : k < Value.rangeLength start stop step ↔
      k * (step.natAbs : Int) < (stop - start) * step.sign := by
    have hsize : 0 < (step.natAbs : Int) := by omega
    have hroom := lt_roundedUp_iff ((stop - start) * step.sign) hsize k
    have hpos : 0 ≤ k * (step.natAbs : Int) := by positivity
    unfold Value.rangeLength
    dsimp only
    split
    · exact hroom
    · omega
  rw [hlength, isBefore_iff]
  rcases lt_or_gt_of_ne hstep with hneg | hpos
  · have habs : (step.natAbs : Int) = -step := by omega
    rw [Int.sign_eq_neg_one_of_neg hneg, habs, mul_neg]
    omega
  · have habs : (step.natAbs : Int) = step := by omega
    rw [Int.sign_eq_one_of_pos hpos, habs]
    omega

/-- A walk is the beginning of the progression. -/
theorem between_eq_terms {start : Int} (hstep : step ≠ 0) (hstart : Value.fits start = true)
    (hstop : Value.fits stop = true) :
    between start stop step = terms start step (Value.rangeLength start stop step) := by
  rw [between, walk_eq_terms (fun _ => hstart) hstop (isBefore_term_iff hstep)]
  simp

/-- The numbers of a progression that lie before its end. -/
def members (start stop step : Int) : Set Int :=
  {i | (∃ k : Nat, i = start + k * step) ∧ isBefore step stop i = true}

theorem mem_terms {start : Int} {n : Nat} :
    i ∈ terms start step n ↔ ∃ k : Nat, k < n ∧ start + k * step = i := by
  simp [terms]

theorem members_eq_terms {start : Int} (hstep : step ≠ 0) :
    members start stop step = {i | i ∈ terms start step (Value.rangeLength start stop step)} := by
  ext i
  simp only [members, Set.mem_ofPred_eq, mem_terms]
  constructor
  · rintro ⟨⟨k, rfl⟩, hbefore⟩
    exact ⟨k, (isBefore_term_iff hstep k).1 hbefore, rfl⟩
  · rintro ⟨k, hk, rfl⟩
    exact ⟨⟨k, rfl⟩, (isBefore_term_iff hstep k).2 hk⟩

theorem terms_nodup {start : Int} (hstep : step ≠ 0) (n : Nat) : (terms start step n).Nodup := by
  refine List.nodup_range.map fun k m hkm => ?_
  have hmul : (k : Int) * step = m * step := by simpa using hkm
  exact_mod_cast mul_right_cancel₀ hstep hmul

/-- A walk gives the numbers of the progression before its end. -/
theorem mem_between {start : Int} (hstep : step ≠ 0) (hstart : Value.fits start = true)
    (hstop : Value.fits stop = true) :
    i ∈ between start stop step ↔ i ∈ members start stop step := by
  rw [between_eq_terms hstep hstart hstop, members_eq_terms hstep]
  rfl

/-- No number of a walk leaves the 64 bits.  The sum that it goes on from is exact, or there is none,
and then the exact sum is not before the end. -/
def NeverWraps (start stop step : Int) : Prop :=
  ∀ i ∈ between start stop step, Value.fits i = true ∧
    (Bounded.add? i step = some (i + step) ∨
      Bounded.add? i step = none ∧ isBefore step stop (i + step) = false)

theorem neverWraps {start : Int} (hstep : step ≠ 0) (hstart : Value.fits start = true)
    (hstop : Value.fits stop = true) : NeverWraps start stop step := by
  intro i hi
  obtain ⟨⟨k, rfl⟩, hbefore⟩ := (mem_between hstep hstart hstop).1 hi
  have hfits : Value.fits (start + k * step) = true := by
    have hwithin := within_of_isBefore k hbefore
    rw [Bounded.fits_iff] at hstart hstop ⊢
    omega
  refine ⟨hfits, ?_⟩
  by_cases hsum : Value.fits (start + k * step + step) = true
  · exact .inl (Bounded.add?_eq_some.2 ⟨hsum, rfl⟩)
  · have hnone := Bounded.add?_eq_none.2 hsum
    exact .inr ⟨hnone, not_isBefore_of_add?_eq_none hfits hstop hnone⟩

/-- How many numbers lie before the end. -/
theorem ncard_members {start : Int} (hstep : step ≠ 0) :
    (members start stop step).Finite ∧
      (members start stop step).ncard = Value.rangeLength start stop step := by
  rw [members_eq_terms hstep]
  refine ⟨List.finite_toSet _, ?_⟩
  rw [← List.coe_toFinset, Set.ncard_coe_finset,
    List.toFinset_card_of_nodup (terms_nodup hstep _)]
  simp [terms]

end Stencil.Progression
