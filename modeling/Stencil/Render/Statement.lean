/-
**Running statements.**

Main definitions:

* `Stencil.Render.loopFrames` — one frame for each iteration of a loop;
* `Stencil.Render.block`, `Stencil.Render.overridden` — blocks and the blocks they override;
* `Stencil.Render.template` — a template in a context of its own;
* `Stencil.Render.execute` — a statement.
-/

import Stencil.Render.Expression

set_option autoImplicit false

namespace Stencil.Render

variable (env : Environment) (ev : Evaluator)

/-! ### Outputs -/

/-- What one member of an output adds to it. -/
def outputMember (scope : Scope) (frame : FrameId) (n : Node) : Action String :=
  match n with
  | .text _ content => pure content
  | n => do
    let v ← ev.eval scope n frame
    Action.located n.position (Action.ofExcept (written env.config v))

/-- What an expression that stands as a statement adds to the output. -/
def bareExpression (scope : Scope) (n : Node) (frame : FrameId) : Action String := do
  Action.ofExcept (written env.config (← ev.eval scope n frame))

/-- What a call of an extension adds to the output. -/
def tagOutput (scope : Scope) (tag : TagCall) (args : Node) (content : List Node)
    (frame : FrameId) : Action String := do
  match ← callTag env ev scope tag args content frame with
  | .undefined | .nothing => return ""
  | .safe s => return s
  | v =>
    if tag.autoescape && env.config.autoescape then return Escape.html v.text
    else return v.text

/-! ### Conditions and loops -/

/-- A conditional statement. -/
def branch (scope : Scope) (condition body : Node) (otherwise : Option Node) (frame : FrameId) :
    Action String := do
  if (← ev.eval scope condition frame).isTruthy then ev.exec scope body frame
  else
    match otherwise with
    | some n => ev.exec scope n frame
    | none => return ""

/-- The names that a loop binds. -/
def loopNames : Node → List String
  | .group .array _ names => names.filterMap Node.asSymbol?
  | n => n.asSymbol?.toList

/-- The items that a loop with so many names runs through; none if the value has no items. -/
def loopItems? (names : Nat) : Value → Option (List Value)
  | .array items => some items
  | .map members =>
    if names = 2 then some (members.map fun (key, v) => .array [.string key, v])
    else some (members.map fun (key, _) => .string key)
  | .string s | .safe s => some (s.toList.map fun c => .string (String.singleton c))
  | .undefined | .nothing => some []
  | _ => none

/-- What a loop knows about an iteration. -/
def loopState (index length : Nat) : Value :=
  .map [("index", .int (index + 1)), ("index0", .int index),
    ("revindex", .int (length - index)), ("revindex0", .int (length - index - 1)),
    ("first", .bool (index == 0)), ("last", .bool (index + 1 == length)),
    ("length", .int length)]

/-- The names that a loop binds to an item; several names are bound to the parts of an array. -/
def loopBindings (names : List String) (item : Value) (index length : Nat) :
    Except TemplateError Bindings := do
  let bound ←
    match names, item with
    | [name], item => pure [(name, item)]
    | names, .array parts =>
      pure (Named.ofList (names.mapIdx fun i name => (name, (parts[i]?).getD .undefined)))
    | names, item => throw (.ofCause (.notUnpackable item.typeName names.length))
  return Named.insert bound "loop" (loopState index length)

/-- The names that a loop binds in each of its iterations. -/
def allLoopBindings (names : List String) (items : List Value) :
    Except TemplateError (List Bindings) :=
  let length := items.length
  (items.zipIdx).mapM fun (item, index) => loopBindings names item index length

/-- One frame for each iteration of a loop. -/
def loopFrames (scope : Scope) (source target : Node) (frame : FrameId) :
    Action (List FrameId) := do
  let v ← ev.eval scope source frame
  let names := loopNames target
  match loopItems? names.length v with
  | none => Action.located source.position (Action.fail (.notIterable v.typeName))
  | some items =>
    let all ← Action.ofExcept (allLoopBindings names items)
    Action.newFrames (all.map fun bindings => ⟨bindings, some frame, false, false⟩)

/-- A loop.  If it has no iterations, something else may run instead. -/
def loop (scope : Scope) (mode : LoopMode) (source target body : Node) (otherwise : Option Node)
    (frame : FrameId) : Action String := do
  match ← loopFrames ev scope source target frame with
  | [] =>
    match otherwise with
    | some n => ev.exec scope n frame
    | none => return ""
  | frames =>
    match mode with
    | .all => String.join <$> Action.join (frames.map fun frame => ev.exec scope body frame)
    | _ => Action.appendAll (fun frame => ev.exec scope body frame) "" frames

/-! ### Assignments -/

/-- Each target is bound to a value. -/
def assignTo (scope : Scope) (frame : FrameId) (v : Value) : List Node → Action Unit
  | [] => pure ()
  | .symbol _ name :: rest => do
    scope.bind frame name v true true
    assignTo scope frame v rest
  | _ :: _ => Action.fail .setTarget

/-- An assignment of a value, or else of a body. -/
def assign (scope : Scope) (targets : List Node) (value body : Option Node) (frame : FrameId) :
    Action Unit := do
  let v ←
    match value, body with
    | some n, _ => ev.eval scope n frame
    | none, some n => ev.eval scope n frame
    | none, none => pure .undefined
  assignTo scope frame v targets

/-- A macro is declared and bound to its name. -/
def define (scope : Scope) (name : String) (parameters body : Node) (frame : FrameId) :
    Action Unit := do
  let declared ← declare scope .named name parameters body
  scope.bind frame name (.callable declared none none) false true

/-! ### Blocks -/

/-- The output of a definition of a block, in an isolated frame. -/
def runBlock (scope : Scope) (definition : BlockDef) (frame : FrameId) : Action String := do
  let inner ← Scope.create scope.context definition.template (some definition)
  let frame ← Action.newFrame (Frames.inside frame true)
  Action.throughTemplate definition.template (ev.exec inner definition.body frame)

/-- A block: the output of the definition that overrides all others.  Outside of other blocks,
once a template is extended, that one decides where blocks are rendered. -/
def block (scope : Scope) (name : String) (frame : FrameId) : Action String := do
  if scope.block.isNone && (← scope.extended?).isSome then return ""
  else
    let definition ← Action.ofExcept ((← Action.context scope.context).block name)
    runBlock ev scope definition frame

/-- The output of the block that the running one overrides is bound to a name. -/
def overridden (scope : Scope) (name : String) (target : Node) (frame : FrameId) :
    Action Unit := do
  match scope.block with
  | none => Action.fail (.superOutsideBlock name)
  | some current =>
    let definition ← Action.ofExcept ((← Action.context scope.context).overridden name current)
    let out ← runBlock ev scope definition frame
    match target.asSymbol? with
    | some name => Action.setName frame name (.safe out) false
    | none => pure ()

/-! ### Other templates -/

/-- The name of a template that an expression denotes. -/
def templateName (scope : Scope) (n : Node) (frame : FrameId) : Action String := do
  let v ← ev.eval scope n frame
  match v.asString? with
  | some name => return name
  | none => Action.fail (.templateName v.typeName)

/-- The output of a template in a context of its own, and the context. -/
def template (id : TemplateId) (bindings : Bindings) (frame : FrameId) :
    Action (String × ContextId) := do
  let compiled ← env.compile id
  let context ← Action.newContext (Context.ofBlocks env.globals bindings compiled.blocks)
  let out ← ev.root id context frame []
  return (out, context)

/-- The template that the running one extends; its blocks are overridden by those there are. -/
def extend (scope : Scope) (n : Node) (frame : FrameId) : Action Unit := do
  let name ← templateName ev scope n frame
  let parent ← env.loadRequired name (some scope.path)
  let compiled ← env.compile parent
  Action.modifyContext scope.context fun c => compiled.blocks.foldl Context.addBlock c
  scope.setExtended parent

/-- The output of another template, which sees all names and changes none. -/
def embed (scope : Scope) (n : Node) (ignoreMissing : Bool) (frame : FrameId) :
    Action String := do
  let name ← templateName ev scope n frame
  match ← env.load name (some scope.path) ignoreMissing with
  | none => return ""
  | some id =>
    let inner ← Action.newFrame (Frames.topLevelInside frame true)
    return (← template env ev id (← scope.bindings) inner).1

/-- An exported value; a macro keeps what is visible in the template that exports it. -/
def withScope (bindings : Bindings) : Value → Value
  | .callable declared closure none =>
    .callable declared closure (if declared.isCaller then none else some bindings)
  | v => v

/-- The names that another template offers, with their values. -/
def exports (scope : Scope) (n : Node) (withContext : Bool) (frame : FrameId) :
    Action Bindings := do
  let name ← templateName ev scope n frame
  let id ← env.loadRequired name (some scope.path)
  let (bindings, inner) ←
    if withContext then do
      let inner ← Action.newFrame (Frames.topLevelInside frame true)
      pure (← scope.bindings, inner)
    else do
      let inner ← Action.newFrame Frames.root
      pure ([], inner)
  let (_, context) ← template env ev id bindings inner
  let context ← Action.context context
  return context.exports.map fun (name, v) => (name, withScope context.bindings v)

/-- Imported names are bound. -/
def bindImports (scope : Scope) (exports : Bindings) (frame : FrameId) :
    List ImportName → Action Unit
  | [] => pure ()
  | name :: rest => do
    match exports.get? name.name with
    | none => Action.fail (.importNotFound name.name)
    | some v =>
      scope.bind frame (name.newName.getD name.name) v false false
      bindImports scope exports frame rest

/-! ### Statements -/

/-- An action that adds nothing to the output. -/
def silently (x : Action Unit) : Action String := do
  x
  return ""

/-- What a statement adds to the output.  An expression that stands as a statement is written. -/
def execute (scope : Scope) (n : Node) (frame : FrameId) : Action String :=
  match n with
  | .group .root _ ns | .group .sequence _ ns =>
    Action.appendAll (fun n => ev.exec scope n frame) "" ns
  | .group .output _ ns => Action.appendAll (outputMember env ev scope frame) "" ns
  | .text _ content => pure content
  | .branch _ _ condition body otherwise => branch ev scope condition body otherwise frame
  | .loop _ mode source target body otherwise =>
    loop ev scope mode source target body otherwise frame
  | .assign _ targets value body => silently (assign ev scope targets value body frame)
  | .definition _ .named name parameters body =>
    silently (define scope name parameters body frame)
  | .block _ name _ => block ev scope name frame
  | .overridden _ name target => silently (overridden ev scope name target frame)
  | .extend _ n => silently (extend env ev scope n frame)
  | .embed _ n ignoreMissing => embed env ev scope n ignoreMissing frame
  | .importAll _ n target withContext => silently do
    let exports ← exports env ev scope n withContext frame
    scope.bind frame target (.map exports) false false
  | .importNames _ n names withContext => silently do
    let exports ← exports env ev scope n withContext frame
    bindImports scope exports frame names
  | .tagCall _ tag args content => tagOutput env ev scope tag args content frame
  | .bind _ call target => silently do
    let v ← ev.eval scope call frame
    match target.asSymbol? with
    | some name => Action.setName frame name v false
    | none => pure ()
  | .group _ _ _ | .capture _ _ | .literal _ _ | .symbol _ _ | .pair _ _ _ | .binary _ _ _ _
  | .unary _ _ _ | .compare _ _ _ | .operand _ _ _ | .choice _ _ _ _ | .lookup _ _ _
  | .slice _ _ _ _ | .call _ _ _ | .filter _ _ _ | .definition _ _ _ _ _ =>
    bareExpression env ev scope n frame

end Stencil.Render
