/-
**Arithmetic.**

Arithmetic on integers is exact; where a result does not fit into 64 bits, the operands are taken
as floats, except that a quotient that does not fit is an error.

Main definitions:

* `Stencil.Value.add`, `Stencil.Value.sub`, `Stencil.Value.mul`, `Stencil.Value.div`,
  `Stencil.Value.floorDiv`, `Stencil.Value.rem`, `Stencil.Value.pow`, `Stencil.Value.neg`,
  `Stencil.Value.plus`, `Stencil.Value.concat` — the operators;
* `Stencil.Value.contains` — whether a value holds another.
-/

import Stencil.Error
import Stencil.Value.Bounded
import Stencil.Value.Equality

set_option autoImplicit false

namespace Stencil.Value

/-! ### Operands -/

/-- Two operands as floats. -/
def floats (op : String) (a b : Value) : Except TemplateError (Float × Float) :=
  match a.asFloat?, b.asFloat? with
  | some x, some y => .ok (x, y)
  | _, _ => .error (.ofCause (.operands op a.typeName b.typeName))

/-- The result of an operation on floats. -/
def onFloats (op : String) (f : Float → Float → Value) (a b : Value) :
    Except TemplateError Value :=
  (floats op a b).map fun (x, y) => f x y

/-- The result of an operation on integers if it fits, and else of the one on floats. -/
def onNumbers (op : String) (exact : Int → Int → Int) (f : Float → Float → Float) (a b : Value) :
    Except TemplateError Value :=
  match a, b with
  | int x, int y =>
    if fits (exact x y) then .ok (int (exact x y)) else onFloats op (fun x y => float (f x y)) a b
  | _, _ => onFloats op (fun x y => float (f x y)) a b

/-! ### Operators -/

/-- The texts of two values, one after the other. -/
def concat (a b : Value) : Value := string (a.text ++ b.text)

/-- `+`: texts if one operand is a string, items if both are arrays, and else numbers. -/
def add (a b : Value) : Except TemplateError Value :=
  if a.asString?.isSome || b.asString?.isSome then .ok (concat a b)
  else
    match a, b with
    | array x, array y => .ok (array (x ++ y))
    | _, _ => onNumbers "+" (· + ·) (· + ·) a b

/-- `-` between two operands. -/
def sub (a b : Value) : Except TemplateError Value := onNumbers "-" (· - ·) (· - ·) a b

/-- `*`. -/
def mul (a b : Value) : Except TemplateError Value := onNumbers "*" (· * ·) (· * ·) a b

/-- `/`: the quotient as a float. -/
def div (a b : Value) : Except TemplateError Value :=
  onFloats "/" (fun x y => float (x / y)) a b

/-- The greatest whole number that is not above a float: an integer if it is far from the limits,
and else a float. -/
def floorValue (x : Float) : Value :=
  match Decimal.floor? x with
  | some n => if n.natAbs < 9 * Nat.pow 10 15 then int n else float x
  | none => float x

/-- A quotient whose remainder is not negative, as one that is rounded down: with a negative divisor
it is one less, unless there is no remainder. -/
def roundedDown? (x y quotient : Int) : Option Int := do
  let rest ← Bounded.remainder? x y
  Bounded.sub? quotient (if rest ≠ 0 ∧ y < 0 then 1 else 0)

/-- The quotient of two integers, rounded down. -/
def floorQuotient? (x y : Int) : Option Int := do
  let quotient ← Bounded.quotient? x y
  roundedDown? x y quotient

/-- `//`: the quotient, rounded down. -/
def floorDiv (a b : Value) : Except TemplateError Value :=
  match a, b with
  | int x, int y =>
    if y = 0 then .error (.ofCause .divisionByZero)
    else
      match floorQuotient? x y with
      | some quotient => .ok (int quotient)
      | none => .error (.ofCause .quotientOverflow)
  | _, _ => onFloats "//" (fun x y => floorValue (x / y)) a b

/-- `%`: the remainder, with the sign of the dividend. -/
def rem (a b : Value) : Except TemplateError Value :=
  match a, b with
  | int x, int y =>
    if y = 0 then .ok (float (0.0 / 0.0))
    else if fits (Int.tdiv x y) then .ok (int (Int.tmod x y))
    else onFloats "%" (fun x y => float (Decimal.remainder x y)) a b
  | _, _ => onFloats "%" (fun x y => float (Decimal.remainder x y)) a b

/-- A power of integers, if it fits.  No power that does not fit is computed. -/
def power? (x : Int) (n : Nat) : Option Int :=
  if x.natAbs ≤ 1 then some (Int.pow x (min n (2 - n % 2)))
  else if n < 64 ∧ fits (Int.pow x n) then some (Int.pow x n)
  else none

/-- `**`: on integers only for exponents of 32 bits without sign. -/
def pow (a b : Value) : Except TemplateError Value :=
  let inexact := onFloats "**" (fun x y => float (Float.pow x y)) a b
  match a, b with
  | int x, int y =>
    if 0 ≤ y ∧ y < Int.pow 2 32 then
      match power? x y.toNat with
      | some p => .ok (int p)
      | none => inexact
    else inexact
  | _, _ => inexact

/-- `-` before an operand. -/
def neg (a : Value) : Except TemplateError Value :=
  match a with
  | int n => .ok (if fits (-n) then int (-n) else float (-Decimal.ofInt n))
  | _ => onFloats "unary -" (fun x _ => float (-x)) a (int 0)

/-- `+` before an operand. -/
def plus (a : Value) : Except TemplateError Value :=
  match a with
  | int _ | float _ => .ok a
  | _ => onFloats "unary +" (fun x _ => float x) a (int 0)

/-! ### Membership -/

/-- Whether a value holds another: as an item, as a key or as a part of a text. -/
def contains (haystack needle : Value) : Except TemplateError Bool :=
  match haystack with
  | array items => .ok (items.any fun item => looseEq item needle)
  | map members => .ok (Named.contains members needle.text)
  | string s | safe s => .ok (Text.occursIn needle.text s)
  | other => .error (.ofCause (.notSearchable needle.text other.typeName))

end Stencil.Value
