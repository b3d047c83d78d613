/-
**Equality and order of values.**

Main definitions:

* `Stencil.Value.strictEq` — the same kind and the same content; integers and floats are of one
  kind, and so are plain and safe strings;
* `Stencil.Value.looseEq` — also after strings and truth values are read as numbers;
* `Stencil.Value.compare?` — strings by their characters, all else as numbers;
* `Stencil.Value.holds` — what a comparison operator says of two values.
-/

import Stencil.Value

set_option autoImplicit false

namespace Stencil.Value

/-! ### Equality -/

mutual
/-- The same kind and the same content. -/
def strictEq : Value → Value → Bool
  | undefined, undefined => true
  | nothing, nothing => true
  | bool a, bool b => a == b
  | int a, int b => a == b
  | int a, float b => Decimal.ofInt a == b
  | float a, int b => a == Decimal.ofInt b
  | float a, float b => a == b
  | string a, string b => a == b
  | string a, safe b => a == b
  | safe a, string b => a == b
  | safe a, safe b => a == b
  | array a, array b => strictEqItems a b
  | map a, map b => a.length == b.length && strictEqMembers a b
  | pattern a, pattern b => a == b
  | callable a _ _, callable b _ _ => a.number == b.number
  | function a _, function b _ => a == b
  | _, _ => false

/-- Lists of the same length with equal items. -/
def strictEqItems : List Value → List Value → Bool
  | [], [] => true
  | a :: as, b :: bs => strictEq a b && strictEqItems as bs
  | _, _ => false

/-- Each member of a map has an equal one with its key in another. -/
def strictEqMembers : List (String × Value) → List (String × Value) → Bool
  | [], _ => true
  | (key, a) :: rest, bs =>
    (match bs.lookup key with
      | some b => strictEq a b
      | none => false) && strictEqMembers rest bs
end

/-- Whether a value can be read as a number in a comparison. -/
def isScalar : Value → Bool
  | int _ | float _ | bool _ | string _ | safe _ => true
  | _ => false

/-- Equality that also reads strings and truth values as numbers, and for which everything that
is undefined or absent is the same. -/
def looseEq (a b : Value) : Bool :=
  if strictEq a b then true
  else if a.isNullish || b.isNullish then a.isNullish && b.isNullish
  else if a.asString?.isSome && b.asString?.isSome then false
  else if a.isScalar && b.isScalar then
    match a.asFloat?, b.asFloat? with
    | some x, some y => x == y
    | _, _ => false
  else false

/-! ### Order -/

/-- The order of two floats, if they have one. -/
def compareFloats? (x y : Float) : Option Ordering :=
  if x < y then some .lt else if y < x then some .gt else if x == y then some .eq else none

/-- The order of two texts by their characters. -/
def compareTexts (s t : String) : Ordering :=
  if s < t then .lt else if t < s then .gt else .eq

/-- The order of two values: of strings by their characters, of all else as numbers. -/
def compare? (a b : Value) : Option Ordering :=
  match a.asString?, b.asString? with
  | some s, some t => some (compareTexts s t)
  | _, _ =>
    match a.asFloat?, b.asFloat? with
    | some x, some y => compareFloats? x y
    | _, _ => none

/-- What a comparison operator says of two values. -/
def holds (op : Comparison) (a b : Value) : Bool :=
  match op with
  | .eq => looseEq a b
  | .ne => !looseEq a b
  | .strictEq => strictEq a b
  | .strictNe => !strictEq a b
  | .lt => compare? a b == some .lt
  | .gt => compare? a b == some .gt
  | .le => compare? a b == some .lt || compare? a b == some .eq
  | .ge => compare? a b == some .gt || compare? a b == some .eq

end Stencil.Value
