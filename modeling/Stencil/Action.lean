/-
**Actions that may suspend.**

Rendering reads and changes a state, may fail, and may suspend: a suspended action waits to be
polled again, and the state may be changed by others in between.

Main definitions:

* `Stencil.State` — everything that a run reads and changes;
* `Stencil.Poll` — what polling an action gives: an answer, or the rest of the action;
* `Stencil.Action` — an action on a state;
* `Stencil.Action.join` — actions that run at once: in each round every one that is not finished is
  polled, in order, and the first error ends them all;
* `Stencil.Poll.finish` — polls again until there is an answer.
-/

import Stencil.Frame
import Stencil.Template

set_option autoImplicit false

namespace Stencil

/-! ### The state -/

/-- The number of a context. -/
abbrev ContextId := Nat

/-- Everything that a run reads and changes.  The first four parts belong to one rendering, the
others outlive it. -/
structure State where
  frames : Frames
  contexts : Array Context
  /-- The templates that the running templates extend, by the number of the running one. -/
  parents : Array (Option TemplateId)
  /-- How many macro calls are in progress. -/
  depth : Nat
  /-- The number of the next macro or block definition. -/
  next : Nat
  templates : Array Template
  /-- The templates that environments keep, by name. -/
  caches : Array (List (String × TemplateId))
  /-- The sources that loaders hold in memory, by name. -/
  memories : Array (List (String × String))
  /-- What the functions of the host do. -/
  functions : Array (CallArgs → Except TemplateError Value)
  /-- What filters, loaders and extensions of the host note down, oldest first. -/
  notes : Array String

/-- The state before anything was done. -/
def State.initial : State := ⟨#[], #[], #[], 0, 0, #[], #[], #[], #[], #[]⟩

/-! ### Polling -/

/-- What polling an action gives. -/
inductive Poll (α : Type) where
  | done (answer : Except TemplateError α) (s : State)
  /-- The action waits; `rest` is what it does from the state in which it is polled again. -/
  | wait (s : State) (rest : State → Poll α)

namespace Poll

/-- An action goes on with another one. -/
def bind {α β : Type} : Poll α → (α → State → Poll β) → Poll β
  | done (.ok a) s, f => f a s
  | done (.error e) s, _ => done (.error e) s
  | wait s rest, f => wait s fun s => (rest s).bind f

/-- An answer and the state with it are changed. -/
def mapAnswer {α β : Type} (f : Except TemplateError α → Except TemplateError β)
    (g : State → State) : Poll α → Poll β
  | done answer s => done (f answer) (g s)
  | wait s rest => wait s fun s => (rest s).mapAnswer f g

/-- A result is changed. -/
def map {α β : Type} (f : α → β) (p : Poll α) : Poll β := p.mapAnswer (Except.map f) id

/-- Two actions run at once, of which the first was polled already in this round. -/
def join {α β : Type} : Poll α → (State → Poll β) → Poll (α × β)
  | done (.ok a) s, q => (q s).map fun b => (a, b)
  | done (.error e) s, _ => done (.error e) s
  | wait s rest, q =>
    match q s with
    | done (.ok b) s => wait s fun s => (rest s).map fun a => (a, b)
    | done (.error e) s => done (.error e) s
    | wait s rest' => wait s fun s => (rest s).join rest'

/-- An action is polled again, at most `times` times, until there is an answer. -/
def finish {α : Type} : Nat → Poll α → Option (Except TemplateError α) × State
  | _, done answer s => (some answer, s)
  | 0, wait s _ => (none, s)
  | times + 1, wait s rest => finish times (rest s)

end Poll

/-! ### Actions -/

/-- An action on a state. -/
def Action (α : Type) := State → Poll α

namespace Action

instance : Monad Action where
  pure a := fun s => .done (.ok a) s
  bind x f := fun s => (x s).bind f

instance {α : Type} : Inhabited (Action α) :=
  ⟨fun s => .done (.error (.ofCause .runTooDeep)) s⟩

/-- The action fails. -/
def fail {α : Type} (cause : Cause) : Action α := fun s => .done (.error (.ofCause cause)) s

/-- The answer of a computation. -/
def ofExcept {α : Type} (answer : Except TemplateError α) : Action α := fun s => .done answer s

/-- The state is read. -/
def read {α : Type} (f : State → α) : Action α := fun s => .done (.ok (f s)) s

/-- The state is changed. -/
def modify (f : State → State) : Action Unit := fun s => .done (.ok ()) (f s)

/-- The state is changed, with a result. -/
def change {α : Type} (f : State → α × State) : Action α := fun s =>
  let (a, s) := f s
  .done (.ok a) s

/-- An error of the action passes a place. -/
def located {α : Type} (p : Position) (x : Action α) : Action α := fun s =>
  (x s).mapAnswer (Except.mapError fun e => e.locate p) id

/-- An error of the action passes the boundary of a template. -/
def throughTemplate {α : Type} (name : String) (x : Action α) : Action α := fun s =>
  (x s).mapAnswer (Except.mapError fun e => e.through name) id

/-- After the action, whether it failed or not, the state is changed. -/
def andFinally {α : Type} (x : Action α) (f : State → State) : Action α := fun s =>
  (x s).mapAnswer id f

/-- The action waits until it was polled `n` more times. -/
def suspend : Nat → Action Unit
  | 0 => fun s => .done (.ok ()) s
  | n + 1 => fun s => .wait s (suspend n)

/-- Something is noted down. -/
def note (message : String) : Action Unit :=
  modify fun s => { s with notes := s.notes.push message }

/-- The actions of a list run at once. -/
def join {α : Type} : List (Action α) → Action (List α)
  | [] => pure []
  | x :: rest => fun s => ((x s).join (join rest)).map fun (a, as) => a :: as

/-- The answers of the actions of a list, one action after the other. -/
def sequence {α : Type} : List (Action α) → Action (List α)
  | [] => pure []
  | x :: rest => do
    let a ← x
    let as ← sequence rest
    return a :: as

/-! ### Frames and contexts -/

/-- A frame is made. -/
def newFrame (frame : Frame) : Action FrameId :=
  change fun s => (s.frames.size, { s with frames := s.frames.push frame })

/-- The frames of a list are made. -/
def newFrames (frames : List Frame) : Action (List FrameId) :=
  change fun s =>
    let all := frames.foldl Array.push s.frames
    ((List.range frames.length).map (s.frames.size + ·), { s with frames := all })

/-- A name is bound in a frame, or with `up` where it is bound already. -/
def setName (id : FrameId) (name : String) (v : Value) (up : Bool) : Action Unit :=
  modify fun s => { s with frames := s.frames.set id name v up }

/-- A context is made. -/
def newContext (context : Context) : Action ContextId :=
  change fun s => (s.contexts.size, { s with contexts := s.contexts.push context })

/-- A context. -/
def context (id : ContextId) : Action Context := read fun s => (s.contexts[id]?).getD default

/-- A context is changed. -/
def modifyContext (id : ContextId) (f : Context → Context) : Action Unit :=
  modify fun s => { s with contexts := s.contexts.modify id f }

/-- A number that no macro and no block definition has. -/
def newNumber : Action Nat := change fun s => (s.next, { s with next := s.next + 1 })

end Action

end Stencil
