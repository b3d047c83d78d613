/-
**Where code of a template runs.**

Statements and expressions hold each other, and the templates they name hold more of them.  The
actions that run them are written over a record of the actions that they call;
`Stencil.Render.Run` ties the knot.

Main definitions:

* `Stencil.Scope` — the template, block and context that code runs in;
* `Stencil.Evaluator` — the actions that run statements, expressions and templates;
* `Stencil.Scope.lookup`, `Stencil.Scope.bind` — names as code sees and binds them;
* `Stencil.written` — the text of a value in the output.
-/

import Stencil.Environment

set_option autoImplicit false

namespace Stencil

/-- Where code of a template runs. -/
structure Scope where
  context : ContextId
  /-- The template that the code comes from. -/
  path : String
  /-- The number of the place where the template that this one extends is kept. -/
  parent : Nat
  /-- The block that the code is part of. -/
  block : Option BlockDef

/-- The actions that run statements, expressions and whole templates. -/
structure Evaluator where
  /-- What a statement adds to the output. -/
  exec : Scope → Node → FrameId → Action String
  /-- What an expression denotes. -/
  eval : Scope → Node → FrameId → Action Value
  /-- The output of a template in a context and a frame; the list names the templates that were
  rendered on the way to it, each extending the next. -/
  root : TemplateId → ContextId → FrameId → List String → Action String

/-- The outputs of the members of a list, one after the other, behind a text. -/
def Action.appendAll {α : Type} (f : α → Action String) : String → List α → Action String
  | out, [] => fun s => .done (.ok out) s
  | out, a :: rest => fun s =>
    match f a s with
    | .done (.ok text) s => appendAll f (out ++ text) rest s
    | .done (.error e) s => .done (.error e) s
    | .wait s resume => .wait s fun s =>
      (resume s).bind fun text s => appendAll f (out ++ text) rest s

namespace Scope

/-- A scope in which no template is extended yet. -/
def create (context : ContextId) (path : String) (block : Option BlockDef) : Action Scope :=
  Action.change fun s =>
    (⟨context, path, s.parents.size, block⟩, { s with parents := s.parents.push none })

/-- The template that the one of the scope extends. -/
def extended? (scope : Scope) : Action (Option TemplateId) :=
  Action.read fun s => (s.parents[scope.parent]?).getD none

/-- The template of the scope extends another. -/
def setExtended (scope : Scope) (parent : TemplateId) : Action Unit :=
  Action.modify fun s => { s with parents := s.parents.modify scope.parent fun _ => some parent }

/-- The names of the context. -/
def bindings (scope : Scope) : Action Bindings := do
  return (← Action.context scope.context).bindings

/-- The value of a name: from the frames, or else from the context. -/
def lookup (scope : Scope) (frame : FrameId) (name : String) : Action Value :=
  Action.read fun s =>
    match s.frames.lookup frame name with
    | some v => v
    | none => ((s.contexts[scope.context]?).getD default).lookup name

/-- A name is bound in a frame, or with `up` where it is bound already; at the top level of a
template also in the context, where it is offered for import if so told. -/
def bind (scope : Scope) (frame : FrameId) (name : String) (v : Value) (up offered : Bool) :
    Action Unit := do
  Action.setName frame name v up
  if ← Action.read fun s => s.frames.isTopLevel frame then
    Action.modifyContext scope.context fun c =>
      let c := c.bind name v
      if offered && name.toList.head? != some '_' then c.addExport name else c

end Scope

/-- The text of a value in the output. -/
def written (config : Config) (v : Value) : Except TemplateError String :=
  match v with
  | .undefined | .nothing =>
    if config.strict then .error (.ofCause .nullOutput) else .ok ""
  | .safe s => .ok s
  | v => .ok (if config.autoescape then Escape.html v.text else v.text)

end Stencil
