/-
**Rendering.**

Main definitions:

* `Stencil.Render.root` — a template in a context, then the template it extends;
* `Stencil.Evaluator.tied` — the actions of an evaluator with the calls tied a number of times;
* `Stencil.Environment.renderTemplate`, `Stencil.Environment.renderNamed`,
  `Stencil.Environment.renderSource` — templates with data, as actions;
* `Stencil.Action.now` — an action that must not suspend;
* `Stencil.renderString` — a source with data in a new environment.
-/

import Stencil.Render.Statement

set_option autoImplicit false

namespace Stencil

/-- The output of a template in a context and a frame.  If it extends another template, that one
is rendered instead, once the names and blocks of this one are in the context. -/
def Render.root (env : Environment) (ev : Evaluator) (id : TemplateId) (context : ContextId)
    (frame : FrameId) (lineage : List String) : Action String := do
  let name := (← Environment.template id).name
  let lineage := lineage ++ [name]
  let scope ← Scope.create context name none
  let out ← Action.throughTemplate name do
    let compiled ← env.compile id
    ev.exec scope compiled.root frame
  match ← scope.extended? with
  | none => return out
  | some parent =>
    let parentName := (← Environment.template parent).name
    if lineage.contains parentName then
      Action.throughTemplate name (Action.fail (.cyclicInheritance (lineage ++ [parentName])))
    else ev.root parent context frame lineage

namespace Evaluator

/-- The actions of an evaluator with the calls inside of them made to another one.  An error passes
the place of the node it arises in. -/
def step (env : Environment) (ev : Evaluator) : Evaluator where
  exec scope n frame := Action.located n.position (Render.execute env ev scope n frame)
  eval scope n frame := Action.located n.position (Render.evaluate env ev scope n frame)
  root := Render.root env ev

/-- The evaluator that runs nothing. -/
def exhausted : Evaluator :=
  ⟨fun _ _ _ => Action.fail .runTooDeep, fun _ _ _ => Action.fail .runTooDeep,
    fun _ _ _ _ => Action.fail .runTooDeep⟩

/-- The actions of an evaluator with the calls inside of them tied `depth` times. -/
def tied (env : Environment) : Nat → Evaluator
  | 0 => exhausted
  | depth + 1 => {
      exec := fun scope n frame s => ((tied env depth).step env).exec scope n frame s
      eval := fun scope n frame s => ((tied env depth).step env).eval scope n frame s
      root := fun id context frame lineage s =>
        ((tied env depth).step env).root id context frame lineage s }

end Evaluator

/-! ### Entry points -/

/-- How deep a run may nest. -/
def nestingLimit : Nat := 1000000

/-- An action that must not suspend. -/
def Action.now {α : Type} (x : Action α) (s : State) : Except TemplateError α × State :=
  match (x s).finish 0 with
  | (some answer, s) => (answer, s)
  | (none, s) => (.error (.ofCause .suspended), s)

namespace Environment

/-- The names that render data binds. -/
def dataBindings : Value → Except TemplateError Bindings
  | .map members => .ok members
  | .undefined | .nothing => .ok []
  | other => .error (.ofCause (.renderData other.typeName))

/-- What belongs to one rendering is set up anew. -/
def startRun (s : State) : State :=
  { s with frames := #[], contexts := #[], parents := #[], depth := 0 }

/-- The output of a template with data, in a run that may nest so deep. -/
def renderWithin (env : Environment) (depth : Nat) (id : TemplateId) (data : Value) :
    Action String := do
  let bindings ← Action.ofExcept (dataBindings data)
  Action.modify startRun
  let frame ← Action.newFrame Frames.root
  return (← Render.template env (Evaluator.tied env depth) id bindings frame).1

/-- The output of a template with data. -/
def renderTemplate (env : Environment) (id : TemplateId) (data : Value) : Action String :=
  env.renderWithin nestingLimit id data

/-- The output of the template of a name with data. -/
def renderNamed (env : Environment) (name : String) (data : Value) : Action String := do
  env.renderTemplate (← env.loadRequired name none) data

/-- The output of a source with data. -/
def renderSource (env : Environment) (source : String) (data : Value) : Action String := do
  env.renderTemplate (← Action.change (newTemplate "<string>" source)) data

end Environment

/-- The output of a source with data, in a new environment in which nothing is registered beside
what is built in. -/
def renderString (source : String) (data : Value) (s : State) :
    Except TemplateError String × State :=
  let (env, s) := Environment.create s
  (env.renderSource source data).now s

end Stencil
