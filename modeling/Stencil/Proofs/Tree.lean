/-
**What lies in a template tree.**

A walk through a tree is written out constructor by constructor in `Stencil.Node.walk`.  This module
states it once for all constructors, by the nodes directly below a node, and derives the two ways in
which later modules speak about trees: what holds everywhere in a tree, and what holds of the nodes
that run where the tree runs, which leaves out the bodies that it only declares.

Main definitions:

* `Stencil.Node.Everywhere` — a property of all nodes of a tree;
* `Stencil.Node.isApart`, `Stencil.Node.level` — the nodes of a tree outside of the bodies that it
  only declares.

Main results:

* `Stencil.Node.walk_eq` — a walk by the nodes directly below a node;
* `Stencil.Node.everywhere_iff` — a property holds everywhere in a tree if it holds of the root and
  everywhere below it;
* `Stencil.Node.childInduction` — induction on a tree by the nodes directly below a node;
* `Stencil.Node.mem_level_of_mem_children` — what runs where a part of a node runs, runs where the
  node does.
-/

import Stencil.Node.Lifting

set_option autoImplicit false

namespace Stencil.Node

/-! ### Walks -/

theorem walkAll_eq_flatMap (stop : Node → Bool) (ns : List Node) :
    walkAll stop ns = ns.flatMap (walk stop) := by
  induction ns with
  | nil => rfl
  | cons n rest ih => rw [walkAll, ih, List.flatMap_cons]

theorem walkOption_eq_flatMap (stop : Node → Bool) (n : Option Node) :
    walkOption stop n = n.toList.flatMap (walk stop) := by
  cases n with
  | none => rfl
  | some n => simp [walkOption]

/-- A walk visits a node, and unless the node stops it, walks through the nodes directly below. -/
theorem walk_eq (stop : Node → Bool) (n : Node) :
    n.walk stop = n :: if stop n then [] else n.children.flatMap (walk stop) := by
  cases n <;>
    simp [walk, visit, children, fields, Field.nodes, walkAll_eq_flatMap, walkOption_eq_flatMap]

theorem mem_walk_self (stop : Node → Bool) (n : Node) : n ∈ n.walk stop := by
  rw [walk_eq]
  exact List.mem_cons_self

/-- What a walk meets below a node that does not stop it, it meets from that node. -/
theorem mem_walk_of_mem_children {stop : Node → Bool} {n c m : Node} (hstop : stop n = false)
    (hc : c ∈ n.children) (hm : m ∈ c.walk stop) : m ∈ n.walk stop := by
  rw [walk_eq, hstop]
  exact List.mem_cons_of_mem _ (List.mem_flatMap.2 ⟨c, hc, hm⟩)

theorem mem_walk_iff {stop : Node → Bool} {n m : Node} :
    m ∈ n.walk stop ↔ m = n ∨ (stop n = false ∧ ∃ c ∈ n.children, m ∈ c.walk stop) := by
  rw [walk_eq, List.mem_cons]
  cases stop n <;> simp

/-! ### Smaller trees -/

/-- How many nodes a tree has. -/
def size (n : Node) : Nat := (n.walk fun _ => false).length

theorem size_lt_of_mem_children {n c : Node} (h : c ∈ n.children) : c.size < n.size := by
  have hle : c.size ≤ (n.children.flatMap (walk fun _ => false)).length := by
    rw [List.flatMap_def]
    exact (List.sublist_flatten_of_mem (List.mem_map.2 ⟨c, h, rfl⟩)).length_le
  have hn : n.size = (n.children.flatMap (walk fun _ => false)).length + 1 := by
    rw [size, walk_eq]
    rfl
  omega

/-- What holds of a tree if it holds of all nodes directly below it, holds of all trees. -/
theorem childInduction {P : Node → Prop} (step : ∀ n : Node, (∀ c ∈ n.children, P c) → P n)
    (n : Node) : P n := by
  induction hk : n.size using Nat.strongRecOn generalizing n with
  | ind k ih =>
      subst hk
      exact step n fun c hc => ih c.size (size_lt_of_mem_children hc) c rfl

/-! ### What holds everywhere -/

/-- A property of all nodes of a tree. -/
def Everywhere (P : Node → Prop) (n : Node) : Prop := ∀ m ∈ n.walk fun _ => false, P m

instance (P : Node → Prop) [DecidablePred P] (n : Node) : Decidable (n.Everywhere P) :=
  inferInstanceAs (Decidable (∀ m ∈ n.walk fun _ => false, P m))

/-- A property holds everywhere in a tree if it holds of the root and everywhere below it. -/
theorem everywhere_iff {P : Node → Prop} {n : Node} :
    n.Everywhere P ↔ P n ∧ ∀ c ∈ n.children, c.Everywhere P := by
  unfold Everywhere
  rw [walk_eq]
  constructor
  · intro h
    refine ⟨h n List.mem_cons_self, ?_⟩
    intro c hc m hm
    exact h m (List.mem_cons_of_mem _ (List.mem_flatMap.2 ⟨c, hc, hm⟩))
  · rintro ⟨hn, hc⟩ m hm
    rcases List.mem_cons.1 hm with rfl | hm
    · exact hn
    · obtain ⟨c, hcn, hmc⟩ := List.mem_flatMap.1 (by simpa using hm)
      exact hc c hcn m hmc

theorem Everywhere.self {P : Node → Prop} {n : Node} (h : n.Everywhere P) : P n :=
  (everywhere_iff.1 h).1

theorem Everywhere.child {P : Node → Prop} {n c : Node} (h : n.Everywhere P)
    (hc : c ∈ n.children) : c.Everywhere P :=
  (everywhere_iff.1 h).2 c hc

theorem Everywhere.mono {P Q : Node → Prop} {n : Node} (h : n.Everywhere P)
    (hPQ : ∀ m, P m → Q m) : n.Everywhere Q :=
  fun m hm => hPQ m (h m hm)

/-- What is met by a full walk below a node of a tree is met by a full walk through the tree. -/
theorem mem_walk_trans {n m k : Node} (hm : m ∈ n.walk fun _ => false)
    (hk : k ∈ m.walk fun _ => false) : k ∈ n.walk fun _ => false := by
  induction n using childInduction with
  | step n ih =>
      rcases mem_walk_iff.1 hm with rfl | ⟨_, c, hc, hmc⟩
      · exact hk
      · exact mem_walk_of_mem_children rfl hc (ih c hc hmc)

/-- What a walk meets that is stopped by some nodes, a full walk meets. -/
theorem mem_walk_of_mem_walk {stop : Node → Bool} {n m : Node} (hm : m ∈ n.walk stop) :
    m ∈ n.walk fun _ => false := by
  induction n using childInduction with
  | step n ih =>
      rcases mem_walk_iff.1 hm with rfl | ⟨_, c, hc, hmc⟩
      · exact mem_walk_self _ m
      · exact mem_walk_of_mem_children rfl hc (ih c hc hmc)

/-- What holds everywhere in a tree holds everywhere below each of its nodes. -/
theorem Everywhere.below {P : Node → Prop} {n m : Node} (h : n.Everywhere P)
    (hm : m ∈ n.walk fun _ => false) : m.Everywhere P :=
  fun _ hk => h _ (mem_walk_trans hm hk)

/-! ### What runs where a tree runs -/

/-- Whether the parts of a node run elsewhere: a macro and the body of a call run where they are
called, and a block where its name is rendered. -/
def isApart : Node → Bool
  | definition _ _ _ _ _ | block _ _ _ => true
  | _ => false

/-- The nodes of a tree outside of the bodies that it only declares. -/
def level (n : Node) : List Node := n.walk isApart

theorem mem_level_self (n : Node) : n ∈ n.level := mem_walk_self _ n

/-- What runs where a part of a node runs, runs where the node does. -/
theorem mem_level_of_mem_children {n c m : Node} (hn : n.isApart = false) (hc : c ∈ n.children)
    (hm : m ∈ c.level) : m ∈ n.level :=
  mem_walk_of_mem_children hn hc hm

/-- What runs where a tree runs lies in the tree. -/
theorem mem_walk_of_mem_level {n m : Node} (hm : m ∈ n.level) : m ∈ n.walk fun _ => false :=
  mem_walk_of_mem_walk hm

end Stencil.Node
