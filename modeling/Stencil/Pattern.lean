/-
**Literals of regular expressions.**

A template may write a regular expression and compare it with others; nothing is matched with it.

Main definitions:

* `Stencil.Pattern.sourceOfLiteral` — a regular expression with its flags in front;
* `Stencil.Pattern.ofLiteral?` — the same, if it is well formed.
-/

import Stencil.Pattern.Expression

set_option autoImplicit false

namespace Stencil.Pattern

/-- A regular expression with those of its flags in front that change what it matches. -/
def sourceOfLiteral (body flags : String) : String :=
  let kept := flags.toList.filter fun c => c == 'i' || c == 'm'
  if kept.isEmpty then body else "(?" ++ String.ofList kept ++ ")" ++ body

/-- The regular expression of a literal, if it is well formed. -/
def ofLiteral? (body flags : String) : Option String :=
  let source := sourceOfLiteral body flags
  if isValid source then some source else none

end Stencil.Pattern
