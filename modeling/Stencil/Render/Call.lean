/-
**Calls.**

Main definitions:

* `Stencil.Render.callMacro` — a call of a macro, with `Stencil.Render.bindParameters`;
* `Stencil.Render.call` — a call of a macro or of a function of the host;
* `Stencil.Render.applyFilter`, `Stencil.Render.applyTest`, `Stencil.Render.callTag` — filters,
  tests and extensions.
-/

import Stencil.Render.Scope

set_option autoImplicit false

namespace Stencil.Render

variable (env : Environment) (ev : Evaluator)

/-! ### Arguments -/

/-- Whether a node is the keywords of a list of arguments. -/
def isKeywords : Node → Bool
  | .group .keywords _ _ => true
  | _ => false

/-- The arguments of a call, behind those evaluated so far. -/
def argumentsFrom (scope : Scope) (frame : FrameId) (args : CallArgs) :
    List Node → Action CallArgs
  | [] => pure args
  | n :: rest => do
    match ← ev.eval scope n frame, isKeywords n with
    | .map keywords, true => argumentsFrom scope frame { args with keywords := keywords } rest
    | v, _ =>
      argumentsFrom scope frame { args with positional := args.positional ++ [v] } rest

/-- The arguments of a call. -/
def arguments (scope : Scope) (n : Node) (frame : FrameId) : Action CallArgs :=
  argumentsFrom ev scope frame ⟨[], []⟩ n.members

/-! ### Macros -/

/-- The most macro calls that may be in progress. -/
def macroDepthLimit : Nat := 200

/-- The names of parameters without default. -/
def plainParameters (parameters : Node) : List String :=
  parameters.members.filterMap Node.asSymbol?

/-- The names of parameters with a default, and their defaults. -/
def defaultParameters (parameters : Node) : List (String × Node) :=
  parameters.members.flatMap fun n =>
    match n with
    | .group .keywords _ pairs => pairs.filterMap fun pair =>
      match pair with
      | .pair _ (.symbol _ name) value => some (name, value)
      | _ => none
    | _ => []

/-- A macro or the body of a call, as the template of the scope declares it. -/
def declare (scope : Scope) (role : MacroRole) (name : String) (parameters body : Node) :
    Action MacroDef := do
  let number ← Action.newNumber
  return ⟨number, name, plainParameters parameters, defaultParameters parameters, body,
    scope.path, role == .caller⟩

/-- The next value for a parameter: the next positional argument, or else the keyword of its name,
which is used up. -/
def takeArgument (args : CallArgs) (name : String) : Option Value × CallArgs :=
  match args.positional with
  | v :: rest => (some v, { args with positional := rest })
  | [] =>
    match args.keywords.get? name with
    | some v => (some v, { args with keywords := args.keywords.erase name })
    | none => (none, args)

/-- Parameters without default are bound; the arguments that are left. -/
def bindPlain (frame : FrameId) (args : CallArgs) : List String → Action CallArgs
  | [] => pure args
  | name :: rest => do
    let (v, args) := takeArgument args name
    Action.setName frame name (v.getD .undefined) false
    bindPlain frame args rest

/-- Parameters with a default are bound, each default being evaluated where those before it are
bound; the arguments that are left. -/
def bindDefaults (scope : Scope) (frame : FrameId) (args : CallArgs) :
    List (String × Node) → Action CallArgs
  | [] => pure args
  | (name, default) :: rest => do
    let (v, args) := takeArgument args name
    let v ←
      match v with
      | some v => pure v
      | none => ev.eval scope default frame
    Action.setName frame name v false
    bindDefaults scope frame args rest

/-- All parameters of a macro are bound, and the body of the call as `caller`. -/
def bindParameters (scope : Scope) (frame : FrameId) (declared : MacroDef) (args : CallArgs) :
    Action Unit := do
  let args ← bindPlain frame args declared.parameters
  let args ← bindDefaults ev scope frame args declared.defaults
  match args.keywords.get? "caller" with
  | some caller => Action.setName frame "caller" caller false
  | none => pure ()

/-- The frame that the body of a macro runs in: one of its own, or for the body of a call one
inside what is visible at the call. -/
def macroFrame (closure : Option Bindings) : Action FrameId := do
  match closure with
  | some bindings =>
    let outer ← Action.newFrame (Frames.ofBindings bindings)
    Action.newFrame (Frames.inside outer true)
  | none => Action.newFrame Frames.detached

/-- The scope that the body of a macro runs in: with a context of its own if the macro was
imported. -/
def macroScope (scope : Scope) (declared : MacroDef) (exports : Option Bindings) :
    Action Scope := do
  match exports with
  | some bindings =>
    let globals := (← Action.context scope.context).globals
    let context ← Action.newContext (Context.ofBlocks globals bindings [])
    Scope.create context declared.template none
  | none => Scope.create scope.context declared.template none

/-- The output of the body of a macro on arguments, as a safe text. -/
def runMacro (scope : Scope) (declared : MacroDef) (closure exports : Option Bindings)
    (args : CallArgs) : Action Value := do
  let frame ← macroFrame closure
  let scope ← macroScope scope declared exports
  bindParameters ev scope frame declared args
  let body := ev.exec scope declared.body frame
  let out ← if exports.isSome then Action.throughTemplate declared.template body else body
  return .safe out

/-- A call of a macro.  Only so many of them may be in progress. -/
def callMacro (scope : Scope) (declared : MacroDef) (closure exports : Option Bindings)
    (args : CallArgs) : Action Value := do
  if macroDepthLimit ≤ (← Action.read State.depth) then Action.fail (.macroDepth declared.name)
  else
    Action.modify fun s => { s with depth := s.depth + 1 }
    Action.andFinally (runMacro ev scope declared closure exports args) fun s =>
      { s with depth := s.depth - 1 }

/-! ### Calls -/

/-- The name of what is called, as error messages use it. -/
def calleeName : Node → String
  | .symbol _ name => name
  | .lookup _ _ (.literal _ (.string name)) => name
  | _ => "[expression]"

/-- A call of a function of the host. -/
def callFunction (number : Nat) (args : CallArgs) : Action Value := fun s =>
  match s.functions[number]? with
  | some f => .done (f args) s
  | none => .done (.ok .nothing) s

/-- A call of a value that the node `name` denotes. -/
def call (scope : Scope) (name : Node) (callee : Value) (args : CallArgs) : Action Value :=
  match callee with
  | .callable declared closure exports => callMacro ev scope declared closure exports args
  | .function number _ => Action.located name.position (callFunction number args)
  | callee =>
    if callee.isNullish then Action.fail (.undefinedCall (calleeName name))
    else Action.fail (.notCallable (calleeName name))

/-! ### Filters, tests and extensions -/

/-- A filter, by name; its first argument is the value filtered. -/
def applyFilter (scope : Scope) (name : String) (n : Node) (frame : FrameId) : Action Value := do
  match env.filters.lookup name with
  | none => Action.fail (.filterNotFound name)
  | some filter =>
    match ← Action.sequence (n.members.map fun n => ev.eval scope n frame) with
    | [] => filter.apply .undefined []
    | v :: args => filter.apply v args

/-- The name of a test and its arguments. -/
def testCall (scope : Scope) (n : Node) (frame : FrameId) : Action (String × List Value) := do
  match n with
  | .symbol _ name => return (name, [])
  | .literal _ .none => return ("none", [])
  | .call _ (.symbol _ name) args => return (name, (← arguments ev scope args frame).positional)
  | _ => Action.fail .testName

/-- What the test that a node names says of a value. -/
def applyTest (scope : Scope) (left right : Node) (frame : FrameId) : Action Value := do
  let v ← ev.eval scope left frame
  let (name, args) ← testCall ev scope right frame
  match env.tests.lookup name with
  | none => Action.fail (.testNotFound name)
  | some test => .bool <$> Action.ofExcept (test v args)

/-- A call of an extension; a body of the tag is rendered when the extension asks for it. -/
def callTag (scope : Scope) (tag : TagCall) (args : Node) (content : List Node)
    (frame : FrameId) : Action Value := do
  match env.extension? tag.extension with
  | none => Action.fail (.extensionNotFound tag.extension)
  | some extension =>
    let args ← arguments ev scope args frame
    extension.run scope.context tag.method args
      (content.map fun body => ev.exec scope body frame)

end Stencil.Render
