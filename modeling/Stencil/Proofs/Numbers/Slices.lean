/-
**Slices.**

A slice picks the items at the places that Python's rules for slices name: its two bounds count from
the end if they are negative, are moved to the nearest end there is, and have a default that depends
on the direction; between them it walks in equal steps.  The walk itself is settled in
`Stencil/Proofs/Numbers/Walks.lean`.  Here the bounds are, and that each place of the walk is that
of an item.

Main definitions:

* `Stencil.Slicing.first`, `Stencil.Slicing.last` — Python's bounds of a slice;
* `Stencil.Slicing.Picks` — the items at the places from a first one in equal steps before a last
  one, in this order;
* `Stencil.Slicing.InRange` — nothing that is computed on the way leaves its range.

Main results:

* `Stencil.Value.sliceStart_eq`, `Stencil.Value.sliceStop_eq` — the bounds are Python's;
* `Stencil.Value.sliceIndices_inRange` — what is computed on the way;
* `Stencil.Value.pick_sliceIndices` — what is picked between the two bounds;
* `Stencil.Value.slice_picks` — **slices are Python's**, for arrays and strings of any length.
-/

import Stencil.Proofs.Numbers.Walks

set_option autoImplicit false

namespace Stencil

open Progression

/-! ### Python's bounds -/

namespace Slicing

/-- Where a bound that is given is, among `length` items: a negative one counts from the end, and
what is outside is moved to the nearest end.  Forwards the ends are those of the items, backwards
they are the last item and the place before the first one. -/
def place (length : Nat) (step i : Int) : Int :=
  if 0 < step then
    if i < 0 then max (i + length) 0 else min i length
  else
    if i < 0 then max (i + length) (-1) else min i (length - 1)

/-- The place where a slice begins. -/
def first (length : Nat) (step : Int) : Option Int → Int
  | some i => place length step i
  | none => if 0 < step then 0 else length - 1

/-- The place before which a slice ends. -/
def last (length : Nat) (step : Int) : Option Int → Int
  | some i => place length step i
  | none => if 0 < step then length else -1

/-- A list has the items at the places `first`, `first + step`, … before `last`, in this order and
no others; and there is an item at each of these places. -/
structure Picks {α : Type} (items : List α) (first last step : Int) (picked : List α) : Prop where
  item : ∀ k : Nat, isBefore step last (first + k * step) = true →
    (0 ≤ first + k * step ∧ first + k * step < items.length) ∧
      picked[k]? = items[(first + k * step).toNat]?
  ends : ∀ k : Nat, isBefore step last (first + k * step) = false → picked[k]? = none

/-- Nothing that is computed for a slice of `length` items leaves its range. -/
structure InRange (length : Nat) (start stop : Option Int) (step : Int) : Prop where
  /-- The place of the last item. -/
  lastItem : Value.fits (length - 1) = true
  /-- The bounds, counted from the start. -/
  counted : ∀ i, i ∈ start ∨ i ∈ stop → Value.fits (Value.fromStart length i) = true
  /-- The places are walked through without a sum that does not fit. -/
  walk : NeverWraps (Value.sliceStart length start step) (Value.sliceStop length stop step) step
  /-- The places that are picked are those of items. -/
  inside : ∀ i ∈ Value.sliceIndices length start stop step, 0 ≤ i ∧ i < length
  /-- The walk has no more steps than there are items. -/
  rounds : (Value.sliceIndices length start stop step).length ≤ length

end Slicing

namespace Value

variable {length : Nat} {start stop : Option Int} {step : Int}

theorem clamp_fromStart (step i : Int) :
    (if 0 < step then clamp (fromStart length i) 0 length
      else clamp (fromStart length i) (-1) (length - 1)) = Slicing.place length step i := by
  unfold clamp fromStart Slicing.place
  split <;> split <;> omega

/-- The place where a slice begins is Python's. -/
theorem sliceStart_eq : sliceStart length start step = Slicing.first length step start := by
  cases start with
  | some i => exact clamp_fromStart step i
  | none =>
      simp only [sliceStart, sliceBound, clamp, Slicing.first, Option.map_none, Option.getD_none]
      split <;> omega

/-- The place before which a slice ends is Python's. -/
theorem sliceStop_eq : sliceStop length stop step = Slicing.last length step stop := by
  cases stop with
  | some i => exact clamp_fromStart step i
  | none =>
      simp only [sliceStop, sliceBound, clamp, Slicing.last, Option.map_none, Option.getD_none]
      split <;> omega

/-- The bounds of a slice are places of items or next to them. -/
theorem sliceBound_within (length : Nat) (step : Int) (place : Option Int) (omitted : Int) :
    (0 < step → 0 ≤ sliceBound length step place omitted ∧
      sliceBound length step place omitted ≤ length) ∧
    (step ≤ 0 → -1 ≤ sliceBound length step place omitted ∧
      sliceBound length step place omitted ≤ length - 1) := by
  unfold sliceBound clamp
  constructor <;> intro hstep
  · rw [if_pos hstep]
    omega
  · rw [if_neg (by omega)]
    omega

theorem sliceBound_fits (hlength : fits length = true) (place : Option Int) (omitted : Int) :
    fits (sliceBound length step place omitted) = true := by
  obtain ⟨hforward, hbackward⟩ := sliceBound_within length step place omitted
  rw [Bounded.fits_iff] at hlength ⊢
  rcases lt_or_ge 0 step with hstep | hstep
  · have hwithin := hforward hstep
    omega
  · have hwithin := hbackward hstep
    omega

theorem sliceStart_fits (hlength : fits length = true) :
    fits (sliceStart length start step) = true :=
  sliceBound_fits hlength _ _

theorem sliceStop_fits (hlength : fits length = true) :
    fits (sliceStop length stop step) = true :=
  sliceBound_fits hlength _ _

/-! ### The places of a walk -/

/-- The places that a slice picks, as a progression. -/
theorem sliceIndices_eq_terms (hlength : fits length = true) (hstep : step ≠ 0) :
    sliceIndices length start stop step =
      terms (sliceStart length start step) step
        (rangeLength (sliceStart length start step) (sliceStop length stop step) step) :=
  between_eq_terms hstep (sliceStart_fits hlength) (sliceStop_fits hlength)

/-- The places that a slice picks are those of items. -/
theorem inside_of_isBefore (k : Nat)
    (h : isBefore step (sliceStop length stop step) (sliceStart length start step + k * step) = true) :
    0 ≤ sliceStart length start step + k * step ∧
      sliceStart length start step + k * step < length := by
  have hstart := sliceBound_within length step start (if 0 < step then 0 else length - 1)
  have hstop := sliceBound_within length step stop (if 0 < step then length else -1)
  unfold sliceStart sliceStop at *
  rcases within_of_isBefore k h with ⟨hpos, hfrom, hto⟩ | ⟨hneg, hfrom, hto⟩
  · have hfirst := (hstart.1 hpos).1
    have hlast := (hstop.1 hpos).2
    omega
  · have hfirst := (hstart.2 hneg.le).2
    have hlast := (hstop.2 hneg.le).1
    omega

theorem mem_sliceIndices (hlength : fits length = true) (hstep : step ≠ 0) {i : Int}
    (hi : i ∈ sliceIndices length start stop step) : 0 ≤ i ∧ i < length := by
  obtain ⟨⟨k, rfl⟩, hbefore⟩ :=
    (mem_between hstep (sliceStart_fits hlength) (sliceStop_fits hlength)).1 hi
  exact inside_of_isBefore k hbefore

/-- A slice has no more places than there are items, since no place is picked twice. -/
theorem length_sliceIndices_le (hlength : fits length = true) (hstep : step ≠ 0) :
    (sliceIndices length start stop step).length ≤ length := by
  have hnodup : (sliceIndices length start stop step).Nodup := by
    rw [sliceIndices_eq_terms hlength hstep]
    exact terms_nodup hstep _
  have hsubset : sliceIndices length start stop step ⊆ (List.range length).map Int.ofNat := by
    intro i hi
    obtain ⟨hlow, hhigh⟩ := mem_sliceIndices hlength hstep hi
    exact List.mem_map.2 ⟨i.toNat, List.mem_range.2 (by omega), Int.toNat_of_nonneg hlow⟩
  simpa using (List.subperm_of_subset hnodup hsubset).length_le

/-- Nothing that is computed for a slice leaves its range. -/
theorem sliceIndices_inRange (hlength : fits length = true) (hstart : ∀ i ∈ start, fits i = true)
    (hstop : ∀ i ∈ stop, fits i = true) (hstep : step ≠ 0) :
    Slicing.InRange length start stop step where
  lastItem := by
    rw [Bounded.fits_iff] at hlength ⊢
    omega
  counted i hi := by
    have hfits : fits i = true := hi.elim (hstart i) (hstop i)
    rw [Bounded.fits_iff] at hlength hfits ⊢
    unfold fromStart
    split <;> omega
  walk := neverWraps hstep (sliceStart_fits hlength) (sliceStop_fits hlength)
  inside _ hi := mem_sliceIndices hlength hstep hi
  rounds := length_sliceIndices_le hlength hstep

/-! ### Picking -/

/-- The items at places that are all there. -/
theorem getElem?_pick {α : Type} {items : List α} {places : List Int}
    (h : ∀ i ∈ places, 0 ≤ i ∧ i < items.length) (k : Nat) :
    (pick items places)[k]? = places[k]?.bind fun i => items[i.toNat]? := by
  induction places generalizing k with
  | nil => rfl
  | cons i rest ih =>
      obtain ⟨hi, hrest⟩ := List.forall_mem_cons.1 h
      have hthere : i.toNat < items.length := by omega
      have hcons : pick items (i :: rest) = items[i.toNat] :: pick items rest := by
        simp [pick, List.getElem?_eq_getElem hthere]
      rw [hcons]
      cases k with
      | zero => simp [List.getElem?_eq_getElem hthere]
      | succ k => simpa using ih hrest k

/-- What is picked between the two bounds of a slice. -/
theorem pick_sliceIndices {α : Type} {items : List α} (hlength : fits items.length = true)
    (hstep : step ≠ 0) :
    Slicing.Picks items (Slicing.first items.length step start) (Slicing.last items.length step stop)
      step (pick items (sliceIndices items.length start stop step)) := by
  have hinside : ∀ i ∈ sliceIndices items.length start stop step, 0 ≤ i ∧ i < items.length :=
    fun i => mem_sliceIndices hlength hstep
  rw [← sliceStart_eq, ← sliceStop_eq]
  refine ⟨fun k hbefore => ⟨inside_of_isBefore k hbefore, ?_⟩, fun k hend => ?_⟩
  · have hk := (isBefore_term_iff hstep k).1 hbefore
    rw [getElem?_pick hinside, sliceIndices_eq_terms hlength hstep, getElem?_terms, if_pos hk]
    rfl
  · have hk : ¬ k < rangeLength _ _ _ :=
      fun hk => Bool.false_ne_true (hend.symm.trans ((isBefore_term_iff hstep k).2 hk))
    rw [getElem?_pick hinside, sliceIndices_eq_terms hlength hstep, getElem?_terms, if_neg hk]
    rfl

/-! ### Slices -/

/-- **Slices are Python's.**  Of an array or a string with any number of items, a slice gives the
items at the places `first`, `first + step`, … before `last`, in this order, where `first` and
`last` are Python's bounds; and on the way to them nothing leaves its range. -/
theorem slice_picks {step : Option Int} (hstart : ∀ i ∈ start, fits i = true)
    (hstop : ∀ i ∈ stop, fits i = true) (hstep : step.getD 1 ≠ 0) :
    (∀ items : List Value, fits items.length = true →
      ∃ picked, (array items).slice start stop step = .ok (array picked) ∧
        Slicing.Picks items (Slicing.first items.length (step.getD 1) start)
          (Slicing.last items.length (step.getD 1) stop) (step.getD 1) picked) ∧
    (∀ s : String, fits s.length = true →
      ∃ picked : List Char,
        (string s).slice start stop step = .ok (string (String.ofList picked)) ∧
        (safe s).slice start stop step = .ok (string (String.ofList picked)) ∧
        Slicing.Picks s.toList (Slicing.first s.length (step.getD 1) start)
          (Slicing.last s.length (step.getD 1) stop) (step.getD 1) picked) ∧
    ∀ length : Nat, fits length = true → Slicing.InRange length start stop (step.getD 1) := by
  refine ⟨fun items hlength => ⟨_, ?_, pick_sliceIndices hlength hstep⟩, fun s hlength => ?_,
    fun length hlength => sliceIndices_inRange hlength hstart hstop hstep⟩
  · simp only [slice, if_neg hstep]
  · rw [← String.length_toList] at hlength ⊢
    refine ⟨_, ?_, ?_, pick_sliceIndices hlength hstep⟩ <;> simp only [slice, if_neg hstep]

/-- From beyond the end backwards, in the longest step there is. -/
theorem slice_picks_backwards :
    (∀ i ∈ some (9223372036854775807 : Int), fits i = true) ∧
      fits ([int 10, int 20, int 30] : List Value).length = true ∧
      (array [int 10, int 20, int 30]).slice (some 9223372036854775807) none
        (some (-9223372036854775808)) = .ok (array [int 30]) ∧
      Slicing.Picks [int 10, int 20, int 30] 2 (-1) (-9223372036854775808) [int 30] := by
  have hstart : ∀ i ∈ some (9223372036854775807 : Int), fits i = true := by
    intro i hi
    cases hi
    decide
  have hlength : fits ([int 10, int 20, int 30] : List Value).length = true := by decide
  obtain ⟨hpicks, -, -⟩ := @slice_picks (some 9223372036854775807) none
    (some (-9223372036854775808)) hstart (fun i hi => by cases hi) (by decide)
  obtain ⟨picked, hslice, hplaces⟩ := hpicks _ hlength
  have hitem : picked[0]? = some (int 30) := (hplaces.item 0 (by decide)).2
  have hend : picked[1]? = none := hplaces.ends 1 (by decide)
  obtain rfl : picked = [int 30] := by
    cases picked with
    | nil => cases hitem
    | cons v rest =>
        cases rest with
        | nil => exact congrArg (fun v => [v]) (Option.some.inj hitem)
        | cons => cases hend
  exact ⟨hstart, hlength, hslice, hplaces⟩

end Value

end Stencil
