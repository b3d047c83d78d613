/-
**Reading templates.**

The actions that read expressions and statements call each other only after they have taken a
token.  So a parser that holds `n` tokens needs the knot of calls tied no more than `n + 1` times.

Main definitions:

* `Stencil.Grammar.tied` — the grammar with the calls tied a number of times;
* `Stencil.Parse.run` — an action that needs the grammar, tied often enough for the parser;
* `Stencil.Parse.template` — a whole template;
* `Stencil.Node.ofSource` — the tree of a template.
-/

import Stencil.Parser.Statement

set_option autoImplicit false

namespace Stencil

/-- The actions of a grammar with the calls inside of what they read made to another one. -/
def Grammar.step (hosts : List TagReader) (g : Grammar) : Grammar where
  expression := Parse.expression g
  negation := Parse.negation g
  unary := Parse.unary g
  primary := Parse.primary g
  branch := Parse.branch g
  nodes := Parse.nodes g hosts

/-- The grammar that reads nothing. -/
def Grammar.exhausted : Grammar :=
  let fail {α : Type} : Parse α := do
    Parse.failAt .nestingTooDeep (← get).lexer.position
  ⟨fail, fail, fail, fun _ => fail, fail, fun _ => fail⟩

/-- The grammar with the calls tied `depth` times. -/
def Grammar.tied (hosts : List TagReader) : Nat → Grammar
  | 0 => Grammar.exhausted
  | depth + 1 => {
      expression := fun p => ((Grammar.tied hosts depth).step hosts).expression p
      negation := fun p => ((Grammar.tied hosts depth).step hosts).negation p
      unary := fun p => ((Grammar.tied hosts depth).step hosts).unary p
      primary := fun bare p => ((Grammar.tied hosts depth).step hosts).primary bare p
      branch := fun p => ((Grammar.tied hosts depth).step hosts).branch p
      nodes := fun names p => ((Grammar.tied hosts depth).step hosts).nodes names p }

namespace Parse

/-- An action that needs the grammar, tied often enough for the parser. -/
def run {α : Type} (hosts : List TagReader) (action : Grammar → Parse α) : Parse α := fun p =>
  action (Grammar.tied hosts (p.size + 1)) p

/-- A whole template. -/
def template (hosts : List TagReader) : Parse Node := do
  let nodes ← run hosts fun g => nodes g hosts []
  return .group .root .start nodes

end Parse

/-- The tree of a template. -/
def Node.ofSource (config : Config) (hosts : List TagReader) (source : String) :
    Except TemplateError Node :=
  (Parse.template hosts (Parser.ofString config source)).1

end Stencil
