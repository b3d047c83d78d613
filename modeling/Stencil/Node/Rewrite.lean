/-
**Rewriting template trees.**

A rewriting visits a tree from the root down.  Before the parts of a node it may replace the node
or leave it alone with everything below it; after the parts it may replace the node again.  The
visits are ordered, and a state is passed from each to the next.

Main definitions:

* `Stencil.Rewritten` — a result, and whether anything in it was replaced;
* `Stencil.Node.mapChildren` — the nodes directly below a node are replaced;
* `Stencil.Rewriter`, `Stencil.Node.rewrite` — a rewriting, and its result on a tree.
-/

import Stencil.Node

set_option autoImplicit false

namespace Stencil

/-- A result, and whether anything in it was replaced. -/
structure Rewritten (α : Type) where
  result : α
  changed : Bool

namespace Rewritten

/-- A result in which nothing was replaced. -/
def unchanged {α : Type} (a : α) : Rewritten α := ⟨a, false⟩

/-- A result as a part of a larger one. -/
def map {α β : Type} (f : α → β) (a : Rewritten α) : Rewritten β := ⟨f a.result, a.changed⟩

/-- Two results as parts of a larger one. -/
def map₂ {α β γ : Type} (f : α → β → γ) (a : Rewritten α) (b : Rewritten β) : Rewritten γ :=
  ⟨f a.result b.result, a.changed || b.changed⟩

/-- Three results as parts of a larger one. -/
def map₃ {α β γ δ : Type} (f : α → β → γ → δ) (a : Rewritten α) (b : Rewritten β)
    (c : Rewritten γ) : Rewritten δ :=
  ⟨f a.result b.result c.result, a.changed || b.changed || c.changed⟩

end Rewritten

namespace Node

/-! ### The nodes directly below a node -/

section Children

variable {σ : Type} (f : Node → StateM σ (Rewritten Node))

/-- The nodes of a list are replaced. -/
def mapAll : List Node → StateM σ (Rewritten (List Node))
  | [] => pure (.unchanged [])
  | n :: rest => do
    let n ← f n
    let rest ← mapAll rest
    return Rewritten.map₂ List.cons n rest

/-- A node that may be missing is replaced. -/
def mapOption : Option Node → StateM σ (Rewritten (Option Node))
  | none => pure (.unchanged none)
  | some n => do
    let n ← f n
    return n.map some

/-- The nodes directly below a node are replaced, in the order in which they are evaluated. -/
def mapChildren : Node → StateM σ (Rewritten Node)
  | group k p a => do return (← mapAll f a).map (group k p)
  | text p s => pure (.unchanged (text p s))
  | capture p a => do return (← f a).map (capture p)
  | literal p v => pure (.unchanged (literal p v))
  | symbol p s => pure (.unchanged (symbol p s))
  | pair p a b => do return Rewritten.map₂ (pair p) (← f a) (← f b)
  | binary p o a b => do return Rewritten.map₂ (binary p o) (← f a) (← f b)
  | unary p o a => do return (← f a).map (unary p o)
  | compare p a b => do return Rewritten.map₂ (compare p) (← f a) (← mapAll f b)
  | operand p o a => do return (← f a).map (operand p o)
  | choice p a b c => do return Rewritten.map₃ (choice p) (← f a) (← f b) (← mapOption f c)
  | lookup p a b => do return Rewritten.map₂ (lookup p) (← f a) (← f b)
  | slice p a b c => do
    return Rewritten.map₃ (slice p) (← mapOption f a) (← mapOption f b) (← mapOption f c)
  | call p a b => do return Rewritten.map₂ (call p) (← f a) (← f b)
  | filter p s a => do return (← f a).map (filter p s)
  | tagCall p t a b => do return Rewritten.map₂ (tagCall p t) (← f a) (← mapAll f b)
  | branch p s a b c => do
    return Rewritten.map₃ (branch p s) (← f a) (← f b) (← mapOption f c)
  | loop p m a b c d => do
    let a ← f a
    let rest := Rewritten.map₃ (fun b c d a => loop p m a b c d) (← f b) (← f c)
      (← mapOption f d)
    return Rewritten.map₂ (fun a g => g a) a rest
  | assign p a b c => do
    return Rewritten.map₃ (assign p) (← mapAll f a) (← mapOption f b) (← mapOption f c)
  | definition p r s a b => do return Rewritten.map₂ (definition p r s) (← f a) (← f b)
  | block p s a => do return (← f a).map (block p s)
  | overridden p s a => do return (← f a).map (overridden p s)
  | extend p a => do return (← f a).map (extend p)
  | embed p a i => do return (← f a).map fun a => embed p a i
  | importAll p a t c => do return (← f a).map fun a => importAll p a t c
  | importNames p a ns c => do return (← f a).map fun a => importNames p a ns c
  | bind p a b => do return Rewritten.map₂ (bind p) (← f a) (← f b)

end Children

end Node

/-! ### Whole trees -/

/-- What happens to a node before its parts are visited. -/
inductive Entry where
  /-- The parts are visited. -/
  | descend
  /-- The node stays as it is, with everything below it. -/
  | keep
  | replace (n : Node)

/-- A rewriting with a state. -/
structure Rewriter (σ : Type) where
  enter : Node → Entry
  /-- What replaces a node after its parts were visited, if anything does. -/
  leave : Node → StateM σ (Option Node)

/-- A visit of a node whose parts are visited by `inside`. -/
def Rewriter.visit {σ : Type} (r : Rewriter σ) (n : Node) (inside : StateM σ (Rewritten Node)) :
    StateM σ (Rewritten Node) :=
  match r.enter n with
  | .keep => pure (.unchanged n)
  | .replace n => pure ⟨n, true⟩
  | .descend => do
    let inner ← inside
    match ← r.leave inner.result with
    | some n => return ⟨n, true⟩
    | none => return inner

namespace Node

section Rewrite

variable {σ : Type} (r : Rewriter σ)

mutual
/-- The result of a rewriting on a tree. -/
def rewrite : Node → StateM σ (Rewritten Node)
  | n@(group k p a) => r.visit n do return (← rewriteAll a).map (group k p)
  | n@(text _ _) => r.visit n (pure (.unchanged n))
  | n@(capture p a) => r.visit n do return (← rewrite a).map (capture p)
  | n@(literal _ _) => r.visit n (pure (.unchanged n))
  | n@(symbol _ _) => r.visit n (pure (.unchanged n))
  | n@(pair p a b) => r.visit n do return Rewritten.map₂ (pair p) (← rewrite a) (← rewrite b)
  | n@(binary p o a b) => r.visit n do
    return Rewritten.map₂ (binary p o) (← rewrite a) (← rewrite b)
  | n@(unary p o a) => r.visit n do return (← rewrite a).map (unary p o)
  | n@(compare p a b) => r.visit n do
    return Rewritten.map₂ (compare p) (← rewrite a) (← rewriteAll b)
  | n@(operand p o a) => r.visit n do return (← rewrite a).map (operand p o)
  | n@(choice p a b c) => r.visit n do
    return Rewritten.map₃ (choice p) (← rewrite a) (← rewrite b) (← rewriteOption c)
  | n@(lookup p a b) => r.visit n do return Rewritten.map₂ (lookup p) (← rewrite a) (← rewrite b)
  | n@(slice p a b c) => r.visit n do
    return Rewritten.map₃ (slice p) (← rewriteOption a) (← rewriteOption b) (← rewriteOption c)
  | n@(call p a b) => r.visit n do return Rewritten.map₂ (call p) (← rewrite a) (← rewrite b)
  | n@(filter p s a) => r.visit n do return (← rewrite a).map (filter p s)
  | n@(tagCall p t a b) => r.visit n do
    return Rewritten.map₂ (tagCall p t) (← rewrite a) (← rewriteAll b)
  | n@(branch p s a b c) => r.visit n do
    return Rewritten.map₃ (branch p s) (← rewrite a) (← rewrite b) (← rewriteOption c)
  | n@(loop p m a b c d) => r.visit n do
    let a ← rewrite a
    let rest := Rewritten.map₃ (fun b c d a => loop p m a b c d) (← rewrite b) (← rewrite c)
      (← rewriteOption d)
    return Rewritten.map₂ (fun a g => g a) a rest
  | n@(assign p a b c) => r.visit n do
    return Rewritten.map₃ (assign p) (← rewriteAll a) (← rewriteOption b) (← rewriteOption c)
  | n@(definition p o s a b) => r.visit n do
    return Rewritten.map₂ (definition p o s) (← rewrite a) (← rewrite b)
  | n@(block p s a) => r.visit n do return (← rewrite a).map (block p s)
  | n@(overridden p s a) => r.visit n do return (← rewrite a).map (overridden p s)
  | n@(extend p a) => r.visit n do return (← rewrite a).map (extend p)
  | n@(embed p a i) => r.visit n do return (← rewrite a).map fun a => embed p a i
  | n@(importAll p a t c) => r.visit n do return (← rewrite a).map fun a => importAll p a t c
  | n@(importNames p a ns c) => r.visit n do
    return (← rewrite a).map fun a => importNames p a ns c
  | n@(bind p a b) => r.visit n do return Rewritten.map₂ (bind p) (← rewrite a) (← rewrite b)

/-- The results of a rewriting on the trees of a list. -/
def rewriteAll : List Node → StateM σ (Rewritten (List Node))
  | [] => pure (.unchanged [])
  | n :: rest => do
    let n ← rewrite n
    let rest ← rewriteAll rest
    return Rewritten.map₂ List.cons n rest

/-- The result of a rewriting on a tree that may be missing. -/
def rewriteOption : Option Node → StateM σ (Rewritten (Option Node))
  | none => pure (.unchanged none)
  | some n => do
    let n ← rewrite n
    return n.map some
end

/-- The trees of a list are rewritten one by one. -/
theorem rewriteAll_eq_mapAll (ns : List Node) : rewriteAll r ns = mapAll (rewrite r) ns := by
  induction ns with
  | nil => rfl
  | cons n rest ih => simp only [rewriteAll, mapAll, ih]

/-- A tree that may be missing is rewritten if it is there. -/
theorem rewriteOption_eq_mapOption (n : Option Node) :
    rewriteOption r n = mapOption (rewrite r) n := by
  cases n <;> rfl

/-- A rewriting visits a node, and inside of the visit the nodes directly below it. -/
theorem rewrite_eq_visit (n : Node) :
    rewrite r n = r.visit n (mapChildren (rewrite r) n) := by
  cases n <;>
    simp only [rewrite, mapChildren, rewriteAll_eq_mapAll, rewriteOption_eq_mapOption]

/-- A node whose parts are visited becomes what its parts make of it, unless it is replaced after
that. -/
theorem visit_eq {n : Node} (h : r.enter n = .descend)
    (inside : StateM σ (Rewritten Node)) (s : σ) :
    r.visit n inside s = ((r.leave (inside s).1.result (inside s).2).1.elim (inside s).1 (⟨·, true⟩),
      (r.leave (inside s).1.result (inside s).2).2) := by
  have hbind : ∀ {α β : Type} (x : StateM σ α) (f : α → StateM σ β) (t : σ),
      (x >>= f) t = f (x t).1 (x t).2 := fun _ _ _ => rfl
  unfold Rewriter.visit
  rw [h]
  simp only [hbind]
  cases (r.leave (inside s).1.result (inside s).2).1 <;> rfl

end Rewrite

end Node

end Stencil
