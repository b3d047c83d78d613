/-
**Contexts.**

A context belongs to one rendering of a template.  It holds the names of the template as a whole,
the definitions of its blocks and of those that it overrides, and the names it offers for import.

Main definitions:

* `Stencil.BlockDef` — the definition of a block in a template;
* `Stencil.Context` — a context, with `Stencil.Context.lookup`, `Stencil.Context.addBlock`,
  `Stencil.Context.block`, `Stencil.Context.overridden` and `Stencil.Context.exports`.
-/

import Stencil.Error
import Stencil.Value

set_option autoImplicit false

namespace Stencil

/-- The definition of a block in a template.  Two definitions are the same if their numbers
are. -/
structure BlockDef where
  number : Nat
  name : String
  body : Node
  /-- The template that defines it. -/
  template : String
  deriving Inhabited

/-- What belongs to one rendering of a template. -/
structure Context where
  /-- What is visible in every template. -/
  globals : Bindings
  bindings : Bindings
  /-- The definitions of each block, those that override before those that are overridden. -/
  blocks : Named (List BlockDef)
  /-- The names offered for import, in the order in which they were offered first. -/
  exported : List String
  deriving Inhabited

namespace Context

/-- A context with the given names and blocks; of two blocks of one name the later one counts. -/
def ofBlocks (globals bindings : Bindings) (blocks : List BlockDef) : Context :=
  ⟨globals, bindings, Named.ofList (blocks.map fun block => (block.name, [block])), []⟩

/-- The value of a name; one that is not bound is undefined. -/
def lookup (c : Context) (name : String) : Value :=
  ((c.bindings.get? name).orElse fun _ => c.globals.get? name).getD .undefined

/-- A name is bound. -/
def bind (c : Context) (name : String) (v : Value) : Context :=
  { c with bindings := c.bindings.insert name v }

/-- The definitions of a name. -/
def entries (c : Context) (name : String) : List BlockDef := (c.blocks.get? name).getD []

/-- A definition is overridden by those of its name that are there already. -/
def addBlock (c : Context) (block : BlockDef) : Context :=
  { c with blocks := c.blocks.insert block.name (c.entries block.name ++ [block]) }

/-- The definition of a block that overrides all others. -/
def block (c : Context) (name : String) : Except TemplateError BlockDef :=
  match (c.entries name).head? with
  | some block => .ok block
  | none => .error (.ofCause (.unknownBlock name))

/-- The definition of a block that the given one overrides. -/
def overridden (c : Context) (name : String) (current : BlockDef) :
    Except TemplateError BlockDef :=
  match ((c.entries name).dropWhile fun block => block.number != current.number)[1]? with
  | some block => .ok block
  | none => .error (.ofCause (.noSuper name))

/-- A name is offered for import. -/
def addExport (c : Context) (name : String) : Context :=
  if c.exported.contains name then c else { c with exported := c.exported ++ [name] }

/-- The names offered for import, with their values. -/
def exports (c : Context) : Bindings :=
  c.exported.map fun name => (name, (c.bindings.get? name).getD .undefined)

end Context

end Stencil
