/-
**Lifting calls out of expressions.**

Before a tree is rendered, three rewritings prepare it.

1. A call that may suspend is taken out of the expression it stands in.  A bind before the
   statement makes the call and binds its result to a placeholder, which stands in the expression
   instead.
2. A call of the overridden block is taken out of the body of the block it stands in: the
   overridden block is rendered at the start of the body and bound to a placeholder.
3. Conditional statements and loops that hold something that may suspend are marked so.

Placeholders have names that cannot be written in a template.

Main definitions:

* `Stencil.Node.collector`, `Stencil.Node.lifting` — the first rewriting;
* `Stencil.Node.superLifting` — the second;
* `Stencil.Node.promotion` — the third;
* `Stencil.Node.prepared` — all three.
-/

import Stencil.Node.Rewrite
import Stencil.Node.Traversal

set_option autoImplicit false

namespace Stencil.Node

/-! ### Calls that may suspend -/

/-- The calls taken out of an expression so far. -/
structure Lifted where
  /-- The number of the next placeholder. -/
  next : Nat
  /-- The binds, in the order of the calls. -/
  binds : List Node

/-- Whether a node is a call that may suspend. -/
def mayCallAsync (filters : List String) : Node → Bool
  | filter _ name _ => filters.contains name
  | tagCall _ t _ _ => t.suspends
  | _ => false

/-- Whether calls below a node are lifted on their own. -/
def isLiftedApart : Node → Bool
  | block _ _ _ | capture _ _ | definition _ .caller _ _ _ | bind _ _ _ => true
  | _ => false

/-- The name of a placeholder for the result of a call. -/
def callPlaceholder (n : Nat) : String := "#t" ++ Nat.repr n

/-- Takes the calls that may suspend out of an expression, inner calls first. -/
def collector (filters : List String) : Rewriter Lifted where
  enter n := if n.isLiftedApart then .keep else .descend
  leave n := do
    if n.mayCallAsync filters then
      let target := symbol n.position (callPlaceholder (← get).next)
      modify fun s => ⟨s.next + 1, s.binds ++ [bind n.position n target]⟩
      return some target
    else return none

/-- The expressions of a statement from which calls are lifted, replaced by `f`. -/
def mapLiftable {σ : Type} (f : Node → StateM σ (Rewritten Node)) :
    Node → StateM σ (Rewritten Node)
  | group .output p a => do return (← mapAll f a).map (group .output p)
  | assign p a (some b) c => do return (← f b).map fun b => assign p a (some b) c
  | loop p m a b c d => do return (← f a).map fun a => loop p m a b c d
  | branch p s a b c => do return (← f a).map fun a => branch p s a b c
  | tagCall p t a b => do return (← f a).map fun a => tagCall p t a b
  | n => pure (.unchanged n)

/-- A statement with the calls lifted from its expressions, the binds before it; none if there are
no calls. -/
def lift? (filters : List String) (n : Node) : StateM Nat (Option Node) := do
  let (lifted, calls) := (mapLiftable (rewrite (collector filters)) n).run ⟨← get, []⟩
  set calls.next
  if calls.binds.isEmpty then return none
  else return some (sequence n.position (calls.binds ++ [lifted.result]))

/-- The calls that may suspend are lifted, in inner statements first; the state is the number of
the next placeholder. -/
def lifting (filters : List String) : Rewriter Nat where
  enter _ := .descend
  leave := lift? filters

/-! ### Calls of the overridden block -/

/-- Whether a node is a block. -/
def isBlock : Node → Bool
  | block _ _ _ => true
  | _ => false

/-- Whether a node is a call of the overridden block. -/
def isSuperCall : Node → Bool
  | call _ (symbol _ name) arguments => name == "super" && arguments.members.isEmpty
  | _ => false

/-- The name of a placeholder for the output of the overridden block. -/
def superPlaceholder (n : Nat) : String := "#s" ++ Nat.repr n

/-- A placeholder stands for each call of the overridden block, outside of inner blocks. -/
def superCalls (target : Node) : Rewriter Unit where
  enter n := if n.isBlock then .keep else .descend
  leave n := return if n.isSuperCall then some target else none

/-- A block in which the overridden block is rendered first; none if it does not call for it. -/
def liftSuper? : Node → StateM Nat (Option Node)
  | block p name body => do
    let next ← get
    let target := symbol p (superPlaceholder next)
    let (inner, _) := (rewrite (superCalls target) body).run ()
    if inner.changed then
      set (next + 1)
      let rest :=
        match inner.result with
        | group .sequence _ members => members
        | other => [other]
      return some (block p name (sequence inner.result.position (overridden p name target :: rest)))
    else return none
  | _ => return none

/-- The calls of overridden blocks are lifted, in inner blocks first; the state is the number of
the next placeholder. -/
def superLifting : Rewriter Nat where
  enter _ := .descend
  leave := liftSuper?

/-! ### Statements that may suspend -/

/-- Whether a node is something that may suspend. -/
def maySuspend : Node → Bool
  | bind _ _ _ => true
  | branch _ suspends _ _ _ => suspends
  | loop _ mode _ _ _ _ => mode != .plain
  | tagCall _ t _ _ => t.suspends
  | _ => false

/-- A conditional statement or loop that holds something that may suspend outside of blocks,
marked so. -/
def promote? (n : Node) : Option Node :=
  match n with
  | branch p false a b c => if n.anyBelow maySuspend isBlock then branch p true a b c else none
  | loop p .plain a b c d =>
    if n.anyBelow maySuspend isBlock then loop p .each a b c d else none
  | _ => none

/-- Conditional statements and loops are marked, inner ones first. -/
def promotion : Rewriter Unit where
  enter _ := .descend
  leave n := return n.promote?

/-! ### All three -/

/-- A tree as it is rendered, and whether anything in it was replaced. -/
def prepared (filters : List String) (root : Node) : Rewritten Node :=
  let first := ((rewrite (lifting filters) root).run 0).1
  let second := ((rewrite superLifting first.result).run 0).1
  let third := ((rewrite promotion second.result).run ()).1
  ⟨third.result, first.changed || second.changed || third.changed⟩

end Stencil.Node
