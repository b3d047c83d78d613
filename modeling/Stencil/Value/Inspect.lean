/-
**Values as a developer reads them.**

Main definitions:

* `Stencil.Inspect.char`, `Stencil.Inspect.quoted` — a text in quotes, with the characters that
  would not show written by name or by code point;
* `Stencil.Value.inspect` — a value with its kind.
-/

import Stencil.Character.Printable
import Stencil.Value

set_option autoImplicit false

namespace Stencil

namespace Inspect

/-- A character of a text in quotes. -/
def char (c : Char) : String :=
  if c = '\x00' then "\\0"
  else if c = '\t' then "\\t"
  else if c = '\r' then "\\r"
  else if c = '\n' then "\\n"
  else if c = '\\' then "\\\\"
  else if c = '\x22' then "\\\""
  else if Character.isExtender c || !Character.isPrintable c then
    "\\u\x7b" ++ String.ofList (Nat.toDigits 16 c.toNat) ++ "\x7d"
  else String.singleton c

/-- A text in quotes. -/
def quoted (s : String) : String := s.toList.foldl (fun out c => out ++ char c) "\"" ++ "\""

end Inspect

namespace Value

mutual
/-- A value with its kind. -/
def inspect : Value → String
  | undefined => "Undefined"
  | nothing => "None"
  | bool true => "Bool(true)"
  | bool false => "Bool(false)"
  | int n => "Int(" ++ Int.repr n ++ ")"
  | float x => "Float(" ++ Decimal.Layout.plain x ++ ")"
  | string s => "String(" ++ Inspect.quoted s ++ ")"
  | safe s => "Safe(" ++ Inspect.quoted s ++ ")"
  | array items => "[" ++ inspectItems items ++ "]"
  | map members => "\x7b" ++ inspectMembers members ++ "\x7d"
  | pattern source => "Regex(" ++ Inspect.quoted source ++ ")"
  | callable declared _ _ => "Macro(" ++ declared.name ++ ")"
  | function _ name => "Function(" ++ name ++ ")"

/-- The items of an array, with commas between them. -/
def inspectItems : List Value → String
  | [] => ""
  | [v] => inspect v
  | v :: rest => inspect v ++ ", " ++ inspectItems rest

/-- The members of a map, with commas between them. -/
def inspectMembers : List (String × Value) → String
  | [] => ""
  | [(key, v)] => Inspect.quoted key ++ ": " ++ inspect v
  | (key, v) :: rest => Inspect.quoted key ++ ": " ++ inspect v ++ ", " ++ inspectMembers rest
end

end Value

end Stencil
