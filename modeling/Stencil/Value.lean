/-
**Values.**

Main definitions:

* `Stencil.Value` — what expressions denote;
* `Stencil.Bindings` — names bound to values, in the order in which they were bound first;
* `Stencil.Value.isTruthy`, `Stencil.Value.asString?`, `Stencil.Value.asInt?`,
  `Stencil.Value.asFloat?` — a value seen as a condition, a text or a number;
* `Stencil.Value.text` — the text of a value in the output;
* `Stencil.Value.toJson`, `Stencil.Value.ofJson` — values and JSON;
* `Stencil.Value.member` — a member of a value.
-/

import Stencil.Decimal.Reading
import Stencil.Json
import Stencil.Named
import Stencil.Node
import Stencil.Text

set_option autoImplicit false

namespace Stencil

/-! ### Values -/

/-- What a macro or the body of a call was declared as.  Two macros are the same if their numbers
are. -/
structure MacroDef where
  number : Nat
  name : String
  parameters : List String
  defaults : List (String × Node)
  body : Node
  /-- The template that declares it. -/
  template : String
  /-- Whether it is the body of a call. -/
  isCaller : Bool

/-- What expressions denote. -/
inductive Value where
  | undefined
  | nothing
  | bool (b : Bool)
  /-- An integer of 64 bits. -/
  | int (n : Int)
  | float (x : Float)
  | string (s : String)
  /-- A text that is not escaped any more. -/
  | safe (s : String)
  | array (items : List Value)
  /-- A map; its keys are distinct and in the order in which they were bound first. -/
  | map (members : List (String × Value))
  /-- A regular expression. -/
  | pattern (source : String)
  /-- A function of the host, which knows it by its number. -/
  | function (number : Nat) (name : String)
  /-- A macro, with what is visible where a call block stands, and what is visible in the template
  that it was imported from. -/
  | callable (declared : MacroDef) (closure scope : Option (List (String × Value)))
  deriving Inhabited

/-- Names bound to values, each once, in the order in which they were bound first. -/
abbrev Bindings := Named Value

/-- The arguments of a call. -/
structure CallArgs where
  positional : List Value
  keywords : Bindings
  deriving Inhabited

/-- The positional argument with the given index, or else the keyword of the given name. -/
def CallArgs.get? (args : CallArgs) (index : Nat) (name : String) : Option Value :=
  (args.positional[index]?).orElse fun _ => args.keywords.get? name

namespace Value

/-! ### Kinds -/

/-- The name of a value's type. -/
def typeName : Value → String
  | undefined => "undefined"
  | nothing => "none"
  | bool _ => "bool"
  | int _ | float _ => "number"
  | string _ | safe _ => "string"
  | array _ => "array"
  | map _ => "map"
  | pattern _ => "regex"
  | callable _ _ _ => "macro"
  | function _ _ => "function"

/-- Whether a value counts as true. -/
def isTruthy : Value → Bool
  | undefined | nothing => false
  | bool b => b
  | int n => n != 0
  | float x => x != 0.0 && !x.isNaN
  | string s | safe s => !s.isEmpty
  | array items => !items.isEmpty
  | map members => !members.isEmpty
  | pattern _ | callable _ _ _ | function _ _ => true

/-- Whether a value is undefined. -/
def isUndefined : Value → Bool
  | undefined => true
  | _ => false

/-- Whether a value is undefined or absent. -/
def isNullish : Value → Bool
  | undefined | nothing => true
  | _ => false

/-- Whether a value is a text that is not escaped any more. -/
def isSafe : Value → Bool
  | safe _ => true
  | _ => false

/-- Whether a value is a number. -/
def isNumber : Value → Bool
  | int _ | float _ => true
  | _ => false

/-! ### Views -/

/-- The text of a string. -/
def asString? : Value → Option String
  | string s | safe s => some s
  | _ => none

/-- Whether a number is an integer of 64 bits. -/
def fits (n : Int) : Bool := -(Int.pow 2 63) ≤ n && n < Int.pow 2 63

/-- The integer of 64 bits that is nearest to a number. -/
def clampInt (n : Int) : Int := max (-(Int.pow 2 63)) (min (Int.pow 2 63 - 1) n)

/-- The integer that a number is, if it has no fraction. -/
def asInt? : Value → Option Int
  | int n => some n
  | float x => if Decimal.isWhole x then (Decimal.floor? x).map clampInt else none
  | _ => none

/-- The number that a value counts as in arithmetic and orderings. -/
def asFloat? : Value → Option Float
  | int n => some (Decimal.ofInt n)
  | float x => some x
  | bool b => some (if b then 1.0 else 0.0)
  | string s | safe s => Decimal.float? (Text.trim s.toList)
  | _ => none

/-- The number of characters, items or members. -/
def size? : Value → Option Nat
  | string s | safe s => some s.length
  | array items => some items.length
  | map members => some members.length
  | _ => none

/-! ### Texts -/

/-- The text of a float: what is not finite has a name, and a whole number below `1e16` has no
point. -/
def floatText (x : Float) : String :=
  if x.isNaN then "NaN"
  else
    match Decimal.floor? x with
    | none => if Decimal.isNegative x then "-Infinity" else "Infinity"
    | some n =>
      if Decimal.isWhole x && n.natAbs < Nat.pow 10 16 then Int.repr n else Decimal.Layout.plain x

mutual
/-- A value as JSON; what has no JSON is a text. -/
def toJson : Value → Json
  | undefined | nothing => .null
  | bool b => .bool b
  | int n => .int n
  | float x => if (Decimal.parts? x).isSome then .float x else .null
  | string s | safe s => .string s
  | array items => .array (toJsonItems items)
  | map members => .object (toJsonMembers members)
  | pattern source => .string ("/" ++ source ++ "/")
  | callable declared _ _ => .string ("[macro " ++ declared.name ++ "]")
  | function _ name => .string ("[function " ++ name ++ "]")

/-- The items of an array as JSON. -/
def toJsonItems : List Value → List Json
  | [] => []
  | v :: rest => toJson v :: toJsonItems rest

/-- The members of a map as JSON. -/
def toJsonMembers : List (String × Value) → List (String × Json)
  | [] => []
  | (key, v) :: rest => (key, toJson v) :: toJsonMembers rest
end

mutual
/-- The text of a value in the output. -/
def text : Value → String
  | undefined | nothing => ""
  | bool true => "true"
  | bool false => "false"
  | int n => Int.repr n
  | float x => floatText x
  | string s | safe s => s
  | array items => textOfItems "" items
  | map members => (toJson (.map members)).compress
  | pattern source => "/" ++ source ++ "/"
  | callable declared _ _ => "[macro " ++ declared.name ++ "]"
  | function _ name => "[function " ++ name ++ "]"

/-- A text, followed by the texts of the items of an array with commas between them. -/
def textOfItems (out : String) : List Value → String
  | [] => out
  | [v] => out ++ text v
  | v :: rest => textOfItems (out ++ text v ++ ",") rest
end

/-! ### JSON -/

mutual
/-- The value of a JSON text. -/
def ofJson : Json → Value
  | .null => nothing
  | .bool b => bool b
  | .int n => int n
  | .float x => float x
  | .string s => string s
  | .array items => array (ofJsonItems items)
  | .object members => map (ofJsonMembers members)

/-- The values of the items of a JSON array. -/
def ofJsonItems : List Json → List Value
  | [] => []
  | j :: rest => ofJson j :: ofJsonItems rest

/-- The values of the members of a JSON object. -/
def ofJsonMembers : List (String × Json) → List (String × Value)
  | [] => []
  | (key, j) :: rest => (key, ofJson j) :: ofJsonMembers rest
end

/-! ### Members -/

/-- An index that may count from the end. -/
def index? (length : Nat) (i : Int) : Option Nat :=
  let i := if i < 0 then length + i else i
  if 0 ≤ i ∧ i < length then some i.toNat else none

/-- The member of a map with a key that is a string or an integer. -/
def memberOfMap (members : Bindings) : Value → Value
  | string key | safe key => (members.get? key).getD undefined
  | int n => (members.get? (Int.repr n)).getD undefined
  | _ => undefined

/-- The length of an array or string, as the member of this name. -/
def lengthMember (v : Value) (key : Value) : Value :=
  if key.asString? = some "length" then
    match v.size? with
    | some n => int n
    | none => undefined
  else undefined

/-- A member of a value; one that is not there is undefined. -/
def member (v key : Value) : Value :=
  match v, key with
  | map members, key => memberOfMap members key
  | array items, int i => ((index? items.length i).bind (items[·]?)).getD undefined
  | string s, int i | safe s, int i =>
    match (index? s.length i).bind (s.toList[·]?) with
    | some c => string (String.singleton c)
    | none => undefined
  | array items, key => lengthMember (array items) key
  | string s, key | safe s, key => lengthMember (string s) key
  | _, _ => undefined

end Value

end Stencil
