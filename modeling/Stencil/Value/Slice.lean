/-
**Slices and ranges.**

Both walk from a first number in equal steps until they come to a last one.

Main definitions:

* `Stencil.Progression.walk`, `Stencil.Progression.between` — the numbers from a first one in equal
  steps, before a last one;
* `Stencil.Value.slice` — every so-many-th item of an array or string between two places;
* `Stencil.Value.range` — the integers between two bounds.
-/

import Stencil.Error
import Stencil.Value.Bounded

set_option autoImplicit false

namespace Stencil

namespace Progression

/-- Whether a number lies before `stop` in the direction of the step. -/
def isBefore (step stop i : Int) : Bool := 0 < step && i < stop || step < 0 && stop < i

/-- The numbers in `out`, and after them those from `i` in steps of `step`, as long as they lie
before `stop`.  The walk also ends where the next number does not fit into 64 bits. -/
def walk (step stop i : Int) (out : Array Int) : Array Int :=
  if isBefore step stop i then
    match _ : Bounded.add? i step with
    | some next => walk step stop next (out.push i)
    | none => out.push i
  else out
termination_by if 0 < step then (stop - i).toNat else (i - stop).toNat
decreasing_by
  rename_i h hnext
  have hsum := (Bounded.add?_eq_some.1 hnext).2
  simp only [isBefore, Bool.or_eq_true, Bool.and_eq_true, decide_eq_true_eq] at h
  split <;> omega

/-- The numbers from `first` in steps of `step`, before `last` in the direction of the step. -/
def between (first last step : Int) : List Int := (walk step last first #[]).toList

end Progression

namespace Value

/-! ### Slices -/

/-- A place that may count from the end, counted from the start. -/
def fromStart (length : Nat) (i : Int) : Int := if i < 0 then i + length else i

/-- The place nearest to `i` that is neither below `low` nor above `high`. -/
def clamp (i low high : Int) : Int := min (max i low) high

/-- One of the two places that bound a slice of `length` items: a place that is given counts from
the start or the end and is moved to the nearest one there is, and one that is not given is
`omitted`.  Backwards, the place before the first item bounds a slice too. -/
def sliceBound (length : Nat) (step : Int) (place : Option Int) (omitted : Int) : Int :=
  let place := (place.map (fromStart length)).getD omitted
  if 0 < step then clamp place 0 length else clamp place (-1) (length - 1)

/-- The place where a slice begins. -/
def sliceStart (length : Nat) (start : Option Int) (step : Int) : Int :=
  sliceBound length step start (if 0 < step then 0 else length - 1)

/-- The place before which a slice ends. -/
def sliceStop (length : Nat) (stop : Option Int) (step : Int) : Int :=
  sliceBound length step stop (if 0 < step then length else -1)

/-- The places that a slice picks out of `length` items. -/
def sliceIndices (length : Nat) (start stop : Option Int) (step : Int) : List Int :=
  Progression.between (sliceStart length start step) (sliceStop length stop step) step

/-- The items at the given places. -/
def pick {α : Type} (items : List α) (indices : List Int) : List α :=
  let items := items.toArray
  indices.filterMap fun i => items[i.toNat]?

/-- Every `step`-th item of an array or string between two places. -/
def slice (v : Value) (start stop step : Option Int) : Except TemplateError Value :=
  let step := step.getD 1
  if step = 0 then .error (.ofCause .sliceStep)
  else
    match v with
    | array items => .ok (array (pick items (sliceIndices items.length start stop step)))
    | string s | safe s =>
      let cs := s.toList
      .ok (string (String.ofList (pick cs (sliceIndices cs.length start stop step))))
    | undefined | nothing => .ok undefined
    | other => .error (.ofCause (.notSliceable other.typeName))

/-! ### Ranges -/

/-- The most items that a range may have. -/
def rangeLimit : Nat := 1000000

/-- How many integers from `start` in steps of `step` lie before `stop`: the way to `stop` divided by
the size of a step, rounded up. -/
def rangeLength (start stop step : Int) : Nat :=
  let way := (stop - start) * step.sign
  if 0 < way then ((way + step.natAbs - 1) / step.natAbs).toNat else 0

/-- The integers from `start` in steps of `step`, before `stop`. -/
def rangeOf (start stop step : Int) : Except TemplateError Value :=
  if step = 0 then .error (.ofCause .rangeStep)
  else
    let count := rangeLength start stop step
    if rangeLimit < count then .error (.ofCause (.rangeLength count rangeLimit))
    else .ok (array ((Progression.between start stop step).map int))

/-- The integers of a list of values. -/
def integers : List Value → Except TemplateError (List Int)
  | [] => .ok []
  | v :: rest => do
    match v.asInt? with
    | some n => return n :: (← integers rest)
    | none => throw (.ofCause (.rangeInteger v.typeName))

/-- The function `range`, by one bound, by two bounds, or by two bounds and a step. -/
def range (args : CallArgs) : Except TemplateError Value := do
  match ← integers args.positional with
  | [stop] => rangeOf 0 stop 1
  | [start, stop] => rangeOf start stop 1
  | [start, stop, step] => rangeOf start stop step
  | ints => throw (.ofCause (.rangeArity ints.length))

end Value

end Stencil
