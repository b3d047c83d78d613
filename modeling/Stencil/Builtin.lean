/-
**What every environment starts with.**

Main definitions:

* `Stencil.Builtin.filters` — `safe`, `escape` and `e`;
* `Stencil.Builtin.tests` — the tests that `is` can name.
-/

import Stencil.Character.CaseMapping
import Stencil.Value.Equality
import Stencil.Value.Escape
import Stencil.Value.Slice

set_option autoImplicit false

namespace Stencil

/-- What a test says of a value and arguments. -/
abbrev Test := Value → List Value → Except TemplateError Bool

namespace Builtin

/-! ### Filters -/

/-- The filters, as functions of the value filtered. -/
def filters : List (String × (Value → Value)) :=
  [("safe", Value.markedSafe), ("escape", Value.escaped), ("e", Value.escaped)]

/-! ### Tests -/

/-- A test without arguments. -/
def check (f : Value → Bool) : Test := fun v _ => .ok (f v)

/-- A test with one argument. -/
def checkWith (test argument : String) (f : Value → Value → Bool) : Test := fun v args =>
  match args.head? with
  | some other => .ok (f v other)
  | none => .error (.ofCause (.testArgument test argument))

/-- Whether a value is one of the kinds that a loop runs through item by item. -/
def isIterable : Value → Bool
  | .array _ | .string _ | .safe _ => true
  | _ => false

/-- Whether a value is a map. -/
def isMapping : Value → Bool
  | .map _ => true
  | _ => false

/-- Whether a value can be called. -/
def isCallable : Value → Bool
  | .callable _ _ _ | .function _ _ => true
  | _ => false

/-- Whether a value is the absent value. -/
def isNothing : Value → Bool
  | .nothing => true
  | _ => false

/-- Whether a value is an integer with the given remainder by two. -/
def hasParity (parity : Int) (v : Value) : Bool := v.asInt?.any fun n => n % 2 == parity

/-- Whether one integer divides another. -/
def isDivisible (v divisor : Value) : Bool :=
  match v.asInt?, divisor.asInt? with
  | some n, some d => d != 0 && n % d == 0
  | _, _ => false

/-- Whether no character of a string has a small letter to become. -/
def isLower (v : Value) : Bool :=
  v.asString?.any fun s => !s.toList.any Character.hasLower

/-- Whether no character of a string has a capital letter to become. -/
def isUpper (v : Value) : Bool :=
  v.asString?.any fun s => !s.toList.any Character.hasUpper

/-- The tests, by name. -/
def tests : List (String × Test) :=
  let equal := checkWith "equalto" "other" Value.strictEq
  [("defined", check fun v => !v.isUndefined),
    ("undefined", check Value.isUndefined),
    ("none", check isNothing),
    ("null", check isNothing),
    ("number", check Value.isNumber),
    ("string", check fun v => v.asString?.isSome),
    ("mapping", check isMapping),
    ("iterable", check isIterable),
    ("callable", check isCallable),
    ("odd", check (hasParity 1)),
    ("even", check (hasParity 0)),
    ("divisibleby", checkWith "divisibleby" "divisor" isDivisible),
    ("equalto", equal),
    ("eq", equal),
    ("sameas", equal),
    ("truthy", check Value.isTruthy),
    ("falsy", check fun v => !v.isTruthy),
    ("escaped", check Value.isSafe),
    ("lower", check isLower),
    ("upper", check isUpper)]

end Builtin

end Stencil
