/-
**Escaping.**

Main definitions:

* `Stencil.Escape.char`, `Stencil.Escape.html` — a text in which the characters with a meaning in
  HTML are written as entities;
* `Stencil.Value.escaped`, `Stencil.Value.markedSafe` — a value as a text that is not escaped any
  more.
-/

import Stencil.Value

set_option autoImplicit false

namespace Stencil

namespace Escape

/-- A character, as an entity if it has a meaning in HTML. -/
def char (c : Char) : List Char :=
  if c = '&' then "&amp;".toList
  else if c = '<' then "&lt;".toList
  else if c = '>' then "&gt;".toList
  else if c = '\x22' then "&quot;".toList
  else if c = '\x27' then "&#39;".toList
  else [c]

/-- A text with the characters that have a meaning in HTML as entities. -/
def html (s : String) : String := String.ofList (s.toList.flatMap char)

end Escape

namespace Value

/-- The text of a value, escaped unless it is safe already. -/
def escaped : Value → Value
  | safe s => safe s
  | v => safe (Escape.html v.text)

/-- The text of a value, taken to be safe. -/
def markedSafe : Value → Value
  | safe s => safe s
  | v => safe v.text

end Value

end Stencil
