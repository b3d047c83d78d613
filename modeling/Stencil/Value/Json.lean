/-
**Values with their types as JSON.**

The JSON of a template's output forgets types: a safe text and a plain one are written alike.  Here
a value is an object with the name of its type and its content; numbers are texts, so that no digit
is lost.

Main definitions:

* `Stencil.Value.toTypedJson` — a value with its type;
* `Stencil.Value.toTypedMembers` — the members of a map with their types.
-/

import Stencil.Decimal.Bits
import Stencil.Value

set_option autoImplicit false

namespace Stencil.Value

/-- An object with the name of a type and a content. -/
def tagged (type : String) (content : Json) : Json :=
  .object [("t", .string type), ("v", content)]

mutual
/-- A value with its type. -/
def toTypedJson : Value → Json
  | undefined => .object [("t", .string "undefined")]
  | nothing => .object [("t", .string "none")]
  | bool b => tagged "bool" (.bool b)
  | int n => tagged "int" (.string (Int.repr n))
  | float x => tagged "float" (.string (Decimal.hexBits x))
  | string s => tagged "str" (.string s)
  | safe s => tagged "safe" (.string s)
  | array items => tagged "array" (.array (toTypedItems items))
  | map members => tagged "map" (.array (toTypedMembers members))
  | pattern source => tagged "regex" (.string source)
  | function _ name => tagged "function" (.string name)
  | callable declared _ _ => tagged "macro" (.string declared.name)

/-- The items of an array with their types. -/
def toTypedItems : List Value → List Json
  | [] => []
  | v :: rest => toTypedJson v :: toTypedItems rest

/-- The members of a map with their types. -/
def toTypedMembers : List (String × Value) → List Json
  | [] => []
  | (key, v) :: rest => .array [.string key, toTypedJson v] :: toTypedMembers rest
end

end Stencil.Value
