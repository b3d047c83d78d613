/-
**Evaluating expressions.**

Main definitions:

* `Stencil.Render.literal` — the value of a literal;
* `Stencil.Render.evaluate` — the value of an expression.
-/

import Stencil.Pattern
import Stencil.Render.Call
import Stencil.Value.Arithmetic

set_option autoImplicit false

namespace Stencil.Render

variable (env : Environment) (ev : Evaluator)

/-- The value of a literal. -/
def literal : Literal → Except TemplateError Value
  | .none => .ok .nothing
  | .bool b => .ok (.bool b)
  | .int n => .ok (.int n)
  | .float x => .ok (.float x)
  | .string s => .ok (.string s)
  | .pattern body flags =>
    match Pattern.ofLiteral? body flags with
    | some source => .ok (.pattern source)
    | none => .error (.ofCause .invalidPattern)

/-! ### Operators -/

/-- An operator between two values that are both evaluated. -/
def strictOperator : BinaryOp → Value → Value → Except TemplateError Value
  | .add => Value.add
  | .sub => Value.sub
  | .mul => Value.mul
  | .div => Value.div
  | .floorDiv => Value.floorDiv
  | .mod => Value.rem
  | .pow => Value.pow
  | .concat => fun a b => .ok (Value.concat a b)
  | .within => fun a b => .bool <$> Value.contains b a
  | _ => fun _ b => .ok b

/-- An operator between two operands.  The right operand of `and` and `or` is evaluated only if
the left one does not decide, and the right operand of a test only names it. -/
def binary (scope : Scope) (op : BinaryOp) (left right : Node) (frame : FrameId) :
    Action Value := do
  match op with
  | .or =>
    let v ← ev.eval scope left frame
    if v.isTruthy then return v else ev.eval scope right frame
  | .and =>
    let v ← ev.eval scope left frame
    if v.isTruthy then ev.eval scope right frame else return v
  | .test => applyTest env ev scope left right frame
  | op =>
    let a ← ev.eval scope left frame
    let b ← ev.eval scope right frame
    Action.ofExcept (strictOperator op a b)

/-- An operator before a value. -/
def unaryOperator : UnaryOp → Value → Except TemplateError Value
  | .not, v => .ok (.bool !v.isTruthy)
  | .neg, v => v.neg
  | .pos, v => v.plus

/-- A chain of comparisons, each comparing what those before it gave. -/
def comparisons (scope : Scope) (frame : FrameId) (v : Value) : List Node → Action Value
  | [] => pure v
  | .operand _ op n :: rest => do
    let w ← ev.eval scope n frame
    comparisons scope frame (.bool (Value.holds op v w)) rest
  | _ :: _ => Action.fail .notComparison

/-! ### Maps, members and slices -/

/-- The key of a pair; a name stands for itself. -/
def pairKey (scope : Scope) (frame : FrameId) (key : Node) : Action String := do
  match key.asSymbol? with
  | some name => return name
  | none => return (← ev.eval scope key frame).text

/-- The members of a map, behind those evaluated so far. -/
def pairs (scope : Scope) (frame : FrameId) (members : Bindings) : List Node → Action Bindings
  | [] => pure members
  | .pair _ key value :: rest => do
    let key ← pairKey ev scope frame key
    let v ← ev.eval scope value frame
    pairs scope frame (members.insert key v) rest
  | _ :: _ => Action.fail .notPair

/-- One of the three places of a slice. -/
def sliceIndex (scope : Scope) (n : Option Node) (frame : FrameId) : Action (Option Int) := do
  match n with
  | none => return none
  | some n =>
    let v ← ev.eval scope n frame
    if v.isNullish then return none
    match v.asInt? with
    | some i => return some i
    | none => Action.fail (.sliceIndex v.typeName)

/-- A member or a slice of a value. -/
def lookup (scope : Scope) (target key : Node) (frame : FrameId) : Action Value := do
  let v ← ev.eval scope target frame
  match key with
  | .slice _ start stop step =>
    let start ← sliceIndex ev scope start frame
    let stop ← sliceIndex ev scope stop frame
    let step ← sliceIndex ev scope step frame
    Action.ofExcept (v.slice start stop step)
  | key => return v.member (← ev.eval scope key frame)

/-! ### Expressions -/

/-- The body of a call, with what is visible where the call stands. -/
def caller (scope : Scope) (role : MacroRole) (name : String) (parameters body : Node)
    (frame : FrameId) : Action Value := do
  let declared ← declare scope role name parameters body
  let bindings ← scope.bindings
  let visible ← Action.read fun s => s.frames.flatten frame
  return .callable declared (some (bindings.insertAll visible)) none

/-- The value of an expression. -/
def evaluate (scope : Scope) (n : Node) (frame : FrameId) : Action Value :=
  match n with
  | .literal _ value => Action.ofExcept (literal value)
  | .symbol _ name => scope.lookup frame name
  | .group .array _ items => do
    return .array (← Action.sequence (items.map fun n => ev.eval scope n frame))
  | .group .dict _ members | .group .keywords _ members => do
    return .map (← pairs ev scope frame [] members)
  | .capture _ body => do return .safe (← ev.exec scope body frame)
  | .binary _ op left right => binary env ev scope op left right frame
  | .unary _ op target => do
    Action.ofExcept (unaryOperator op (← ev.eval scope target frame))
  | .compare _ first operands => do
    comparisons ev scope frame (← ev.eval scope first frame) operands
  | .operand _ _ value => ev.eval scope value frame
  | .choice _ condition body otherwise => do
    if (← ev.eval scope condition frame).isTruthy then ev.eval scope body frame
    else
      match otherwise with
      | some n => ev.eval scope n frame
      | none => return .undefined
  | .lookup _ target key => lookup ev scope target key frame
  | .call _ callee args => do
    let v ← ev.eval scope callee frame
    let args ← arguments ev scope args frame
    call ev scope callee v args
  | .filter _ name args => applyFilter env ev scope name args frame
  | .tagCall _ tag args content => callTag env ev scope tag args content frame
  | .definition _ .caller name parameters body =>
    caller scope .caller name parameters body frame
  | .pair _ _ _ | .slice _ _ _ _ => Action.fail (.misplacedPart n.kindName)
  | .group _ _ _ | .text _ _ | .branch _ _ _ _ _ | .loop _ _ _ _ _ _ | .assign _ _ _ _
  | .definition _ _ _ _ _ | .block _ _ _ | .overridden _ _ _ | .extend _ _ | .embed _ _ _
  | .importAll _ _ _ _ | .importNames _ _ _ _ | .bind _ _ _ =>
    Action.fail (.statementAsExpression n.kindName)

end Stencil.Render
