/-
**The grammar as a record.**

Expressions hold expressions and statements hold statements.  The actions that read them are
written over a record of the actions that they call after they have taken a token, so that each of
them is a plain definition; `Stencil.Parser.Template` ties the knot.

Main definitions:

* `Stencil.Grammar` — the actions that are called again inside of what they read;
* `Stencil.TagReader` — the tags that a host adds, and how they are read.
-/

import Stencil.Parser

set_option autoImplicit false

namespace Stencil

/-- The actions that are called again inside of what they read. -/
structure Grammar where
  expression : Parse Node
  /-- An expression that binds tighter than `and`. -/
  negation : Parse Node
  /-- An expression that binds tighter than `*`. -/
  unary : Parse Node
  /-- A literal, a name or something in brackets; with what follows it unless told not to. -/
  primary : Bool → Parse Node
  /-- A conditional statement, its tag name not taken yet. -/
  branch : Parse Node
  /-- Nodes up to a tag with one of the given names. -/
  nodes : List String → Parse (List Node)

/-- The tags that a host adds, and how they are read: what follows the name of the tag, which is
taken already. -/
structure TagReader where
  tags : List String
  read : Grammar → Token → Parse Node

end Stencil
