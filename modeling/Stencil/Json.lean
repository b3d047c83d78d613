/-
**JSON values.**

Main definitions:

* `Stencil.Json` — a JSON value; the members of an object keep their order;
* `Stencil.Json.compress` — its text without blanks.

The text of a float is left to `Stencil.Decimal.Layout.json`; a float that is not finite has no
JSON text and is written `null`.
-/

import Stencil.Decimal.Layout

set_option autoImplicit false

namespace Stencil

/-- A JSON value. -/
inductive Json where
  | null
  | bool (b : Bool)
  | int (n : Int)
  | float (x : Float)
  | string (s : String)
  | array (items : List Json)
  | object (members : List (String × Json))
  deriving Inhabited

namespace Json

/-- A character of a JSON string, escaped where it has to be. -/
def escapeChar (c : Char) : String :=
  if c = '\x22' then "\\\""
  else if c = '\\' then "\\\\"
  else if c = '\x08' then "\\b"
  else if c = '\x0c' then "\\f"
  else if c = '\n' then "\\n"
  else if c = '\r' then "\\r"
  else if c = '\t' then "\\t"
  else if c.toNat < 32 then
    "\\u00" ++ String.ofList [Nat.digitChar (c.toNat / 16), Nat.digitChar (c.toNat % 16)]
  else String.singleton c

/-- A text as a JSON string. -/
def quote (s : String) : String :=
  s.toList.foldl (fun out c => out ++ escapeChar c) "\"" ++ "\""

mutual
/-- The text of a value, without blanks. -/
def compress : Json → String
  | null => "null"
  | bool true => "true"
  | bool false => "false"
  | int n => Int.repr n
  | float x => Decimal.Layout.json x
  | string s => quote s
  | array items => compressItems "[" items ++ "]"
  | object members => compressMembers "\x7b" members ++ "\x7d"

/-- A text, followed by the texts of the items of an array with commas between them. -/
def compressItems (out : String) : List Json → String
  | [] => out
  | [item] => out ++ compress item
  | item :: items => compressItems (out ++ compress item ++ ",") items

/-- A text, followed by the texts of the members of an object with commas between them. -/
def compressMembers (out : String) : List (String × Json) → String
  | [] => out
  | [(key, value)] => out ++ quote key ++ ":" ++ compress value
  | (key, value) :: members =>
    compressMembers (out ++ quote key ++ ":" ++ compress value ++ ",") members
end

end Json

end Stencil
