/-
**The expressions that calls are lifted from.**

Calls that may suspend are lifted from a few parts of a statement only: what an output writes, the value
of an assignment, what a loop goes through, the condition of a conditional statement and the arguments of
an extension.  Here these parts are a list, and lifting is a matter of this list.

Main definitions:

* `Stencil.Node.slots` — the expressions of a statement that calls are lifted from;
* `Stencil.Node.withSlots` — the statement with other expressions in their place.

Main results:

* `Stencil.Node.mapLiftable_eq`, `Stencil.Node.lift?_slots` — what is lifted is lifted from the slots, in
  their order.
-/

import Mathlib.Algebra.GroupWithZero.Nat
import Stencil.Proofs.Syntax.Prepared
import Stencil.Proofs.Syntax.Twins

set_option autoImplicit false

namespace Stencil.Node

/-! ### Slots -/

/-- The expressions of a statement that calls are lifted from. -/
def slots : Node → List Node
  | group .output _ ns => ns
  | assign _ _ (some value) _ => [value]
  | loop _ _ source _ _ _ => [source]
  | branch _ _ condition _ _ => [condition]
  | tagCall _ _ arguments _ => [arguments]
  | _ => []

/-- The statement with other expressions in the place of those that calls are lifted from. -/
def withSlots : Node → List Node → Node
  | group .output p _, ns => group .output p ns
  | assign p targets (some _) body, [value] => assign p targets (some value) body
  | loop p mode _ target body otherwise, [source] => loop p mode source target body otherwise
  | branch p suspends _ body otherwise, [condition] => branch p suspends condition body otherwise
  | tagCall p t _ content, [arguments] => tagCall p t arguments content
  | n, _ => n

/-- What is lifted from a statement is lifted from its slots, in their order. -/
theorem mapLiftable_eq {σ : Type} (f : Node → StateM σ (Rewritten Node)) (n : Node) :
    mapLiftable f n = do return (← mapAll f n.slots).map n.withSlots := by
  have hone : ∀ (a : Node) (g : Node → Node) (h : List Node → Node), (∀ a, h [a] = g a) →
      (do return (← f a).map g : StateM σ (Rewritten Node)) =
        do return (← mapAll f [a]).map h := by
    intro a g h hg
    funext s
    change ((f a s).1.map g, (f a s).2) =
      (Rewritten.map h ⟨[(f a s).1.result], (f a s).1.changed || false⟩, (f a s).2)
    simp [Rewritten.map, hg]
  cases n with
  | group k p ns =>
      cases k with
      | output => rfl
      | _ => rfl
  | assign p targets value body =>
      cases value with
      | none => rfl
      | some value => exact hone _ _ _ fun _ => rfl
  | loop | branch | tagCall => exact hone _ _ _ fun _ => rfl
  | _ => rfl

/-- What lifting makes of a statement, by the expressions in its slots. -/
theorem lift?_slots (filters : List String) (n : Node) (next : Nat) :
    lift? filters n next =
      let es := mapAll (rewrite (collector filters)) n.slots ⟨next, []⟩
      (if es.2.binds.isEmpty then none
        else some (sequence n.position (es.2.binds ++ [n.withSlots es.1.result])), es.2.next) := by
  rw [lift?_eq, mapLiftable_eq]
  rfl

theorem mem_children_of_mem_slots {n e : Node} (h : e ∈ n.slots) : e ∈ n.children := by
  unfold slots at h
  split at h <;> simp_all [children, fields, Field.nodes]

variable {R : Node → Node → Prop} {n n' : Node}

/-- Parts that are related in one way may be related in another one. -/
theorem Parts.mono {Q : Node → Node → Prop} (h : Parts R n n')
    (hQ : ∀ c c', c ∈ n.children → R c c' → Q c c') : Parts Q n n' := by
  cases h <;> constructor <;> first
    | exact hQ _ _ (by simp [children, fields, Field.nodes]) (by assumption)
    | exact forall₂_mono (fun c c' hc => hQ c c' (by simp [children, fields, Field.nodes, hc]))
        (by assumption)
    | exact optionRel_mono (fun c c' hc => hQ c c' (by simp [children, fields, Field.nodes, hc]))
        (by assumption)

/-- The slots of related nodes are related one by one. -/
theorem Parts.slots (h : Parts R n n') : List.Forall₂ R n.slots n'.slots := by
  cases h with
  | @group k p ns ns' h =>
      cases k with
      | output => exact h
      | _ => exact .nil
  | assign h ha hb =>
      cases ha with
      | none => exact .nil
      | some ha => exact .cons ha .nil
  | loop ha | branch ha | tagCall ha => exact .cons ha .nil
  | _ => exact .nil

/-- The slots of a statement after other expressions were put there. -/
theorem slots_withSlots {es : List Node} (h : es.length = n.slots.length) :
    (n.withSlots es).slots = es := by
  have hone : ∀ {a : Node}, es.length = [a].length → ∃ e, es = [e] :=
    fun h => List.length_eq_one_iff.1 h
  cases n with
  | group k p ns =>
      cases k with
      | output => rfl
      | _ => exact (List.length_eq_zero_iff.1 h).symm
  | assign p targets value body =>
      cases value with
      | none => exact (List.length_eq_zero_iff.1 h).symm
      | some value =>
          obtain ⟨e, rfl⟩ := hone h
          rfl
  | loop | branch | tagCall =>
      obtain ⟨e, rfl⟩ := hone h
      rfl
  | _ => exact (List.length_eq_zero_iff.1 h).symm

/-- A statement with other expressions in its slots has these below it, and else what it had. -/
theorem mem_children_withSlots {es : List Node} {c : Node} (hc : c ∈ (n.withSlots es).children) :
    c ∈ es ∨ c ∈ n.children := by
  unfold withSlots at hc
  split at hc <;> simp [children, fields, Field.nodes] at hc ⊢ <;> grind

/-- A statement with other expressions in its slots is one of its kind, with related parts. -/
theorem Parts.withSlots {es : List Node} (h : Parts R n n') (hes : List.Forall₂ R n.slots es) :
    Parts R n (n'.withSlots es) := by
  cases h with
  | @group k p ns ns' h =>
      cases k with
      | output => exact .group hes
      | _ => exact .group h
  | assign h ha hb =>
      cases ha with
      | none => exact .assign h .none hb
      | some ha =>
          obtain _ | ⟨he, _ | _⟩ := hes
          exact .assign h (.some he) hb
  | loop ha hb hc hd =>
      obtain _ | ⟨he, _ | _⟩ := hes
      exact .loop he hb hc hd
  | branch ha hb hc =>
      obtain _ | ⟨he, _ | _⟩ := hes
      exact .branch he hb hc
  | tagCall ha h =>
      obtain _ | ⟨he, _ | _⟩ := hes
      exact .tagCall he h
  | _ => constructor <;> assumption

/-- What adds up over the parts of a statement does so over the slots and the rest. -/
theorem sum_children_withSlots {es : List Node} (h : es.length = n.slots.length) (f : Node → Nat) :
    ((n.withSlots es).children.map f).sum + (n.slots.map f).sum =
      (n.children.map f).sum + (es.map f).sum := by
  have hone : ∀ {a : Node}, es.length = [a].length → ∃ e, es = [e] :=
    fun h => List.length_eq_one_iff.1 h
  have hnone : n.slots = [] → n.withSlots es = n →
      ((n.withSlots es).children.map f).sum + (n.slots.map f).sum =
        (n.children.map f).sum + (es.map f).sum := by
    intro hslots hsame
    rw [hslots] at h
    rw [hslots, hsame, List.length_eq_zero_iff.1 h]
  -- nodes with slots are an output, of which all members are, and statements, which have one
  cases n with
  | group k p ns =>
      cases k with
      | output =>
          simp only [Node.withSlots, Node.slots, children, fields, Field.nodes, List.flatMap_cons,
            List.flatMap_nil, List.append_nil]
          omega
      | _ => exact hnone rfl rfl
  | assign p targets value body =>
      cases value with
      | none => exact hnone rfl rfl
      | some value =>
          obtain ⟨e, rfl⟩ := hone h
          simp [Node.withSlots, Node.slots, children, fields, Field.nodes]
          omega
  | loop | branch | tagCall =>
      obtain ⟨e, rfl⟩ := hone h
      simp [Node.withSlots, Node.slots, children, fields, Field.nodes]
      omega
  | _ => exact hnone rfl rfl

/-! ### Walks -/

/-- What holds wherever a walk comes, holds of the node and wherever the walk comes below it. -/
theorem forall_walk_iff {stop : Node → Bool} {Q : Node → Prop} :
    (∀ k ∈ n.walk stop, Q k) ↔
      Q n ∧ (stop n = false → ∀ c ∈ n.children, ∀ k ∈ c.walk stop, Q k) := by
  constructor
  · intro h
    exact ⟨h n (mem_walk_self stop n), fun hstop c hc k hk => h k (mem_walk_of_mem_children hstop hc hk)⟩
  · rintro ⟨hn, hchildren⟩ k hk
    rcases mem_walk_iff.1 hk with rfl | ⟨hstop, c, hc, hkc⟩
    · exact hn
    · exact hchildren hstop c hc k hkc

theorem everywhere_symbol {Q : Node → Prop} {p : Position} {name : String} (h : Q (symbol p name)) :
    (symbol p name).Everywhere Q :=
  everywhere_iff.2 ⟨h, fun _ hc => by simp [children, fields] at hc⟩

/-! ### Kinds of nodes -/

theorem Parts.isLiftedApart (h : Parts R n n') : n'.isLiftedApart = n.isLiftedApart := by
  cases h with
  | @definition p role => cases role <;> rfl
  | _ => rfl

theorem Parts.mayCallAsync (h : Parts R n n') (filters : List String) :
    n'.mayCallAsync filters = n.mayCallAsync filters := by
  cases h <;> rfl

theorem Parts.isBlock (h : Parts R n n') : n'.isBlock = n.isBlock := by
  cases h <;> rfl

end Stencil.Node
