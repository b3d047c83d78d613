/-
**A rewriting goes through the parts of a node one after the other.**

What a rewriting does with the parts of a node is the same for all kinds of nodes: it goes through the
list of them, and the state that it leaves one part with is the state that it meets the next one with.
A statement about a rewriting that speaks of its state before and after a tree is known as soon as it is
known for a node, the parts of which were gone through.

Main definitions:

* `Stencil.Node.withChildren` — a node with other nodes directly below it;
* `Stencil.Node.Run` — a list of nodes that was gone through, with the states before and after.

Main results:

* `Stencil.Node.mapChildren_eq` — replacing the parts of a node is replacing the nodes of a list;
* `Stencil.Node.rewrite_stepwise` — **a tree, with the states before and after**, by what happens at one
  node;
* `Stencil.Node.rewrite_result_eq` — a tree in which nothing was replaced is the tree that it was.
-/

import Stencil.Proofs.Syntax.Rewriting
import Stencil.Proofs.Mirror.Nodes

set_option autoImplicit false

namespace Stencil.Node

/-! ### Other parts -/

/-- A node with other nodes directly below it, as many as there were. -/
def withChildren : Node → List Node → Node
  | group k p _, ns => group k p ns
  | capture p _, [a] => capture p a
  | pair p _ _, [a, b] => pair p a b
  | binary p o _ _, [a, b] => binary p o a b
  | unary p o _, [a] => unary p o a
  | compare p _ _, a :: ns => compare p a ns
  | operand p o _, [a] => operand p o a
  | choice p _ _ _, a :: b :: rest => choice p a b rest.head?
  | lookup p _ _, [a, b] => lookup p a b
  | slice p a b _, ns =>
    let i := a.toList.length
    let j := b.toList.length
    slice p (ns.take i).head? ((ns.drop i).take j).head? ((ns.drop i).drop j).head?
  | call p _ _, [a, b] => call p a b
  | filter p s _, [a] => filter p s a
  | tagCall p t _ _, a :: ns => tagCall p t a ns
  | branch p s _ _ _, a :: b :: rest => branch p s a b rest.head?
  | loop p m _ _ _ _, a :: b :: c :: rest => loop p m a b c rest.head?
  | assign p targets value _, ns =>
    let i := targets.length
    let j := value.toList.length
    assign p (ns.take i) ((ns.drop i).take j).head? ((ns.drop i).drop j).head?
  | definition p r s _ _, [a, b] => definition p r s a b
  | block p s _, [a] => block p s a
  | overridden p s _, [a] => overridden p s a
  | extend p _, [a] => extend p a
  | embed p _ i, [a] => embed p a i
  | importAll p _ t c, [a] => importAll p a t c
  | importNames p _ ns c, [a] => importNames p a ns c
  | bind p _ _, [a, b] => bind p a b
  | n, _ => n

section

variable {α β : Type} {R : α → β → Prop}

/-- What is related to two lists one after the other is two lists. -/
theorem forall₂_append_left {as bs : List α} {cs : List β} (h : List.Forall₂ R (as ++ bs) cs) :
    ∃ as' bs', cs = as' ++ bs' ∧ List.Forall₂ R as as' ∧ List.Forall₂ R bs bs' := by
  induction as generalizing cs with
  | nil => exact ⟨[], cs, rfl, .nil, h⟩
  | cons a as ih =>
      cases h with
      | cons ha h =>
          obtain ⟨as', bs', rfl, has, hbs⟩ := ih h
          exact ⟨_ :: as', bs', rfl, .cons ha has, hbs⟩

/-- What is related to a node that may be missing is such a node. -/
theorem optionRel_head? {o : Option α} {bs : List β} (h : List.Forall₂ R o.toList bs) :
    Option.Rel R o bs.head? ∧ bs = bs.head?.toList := by
  cases o with
  | none =>
      cases h
      exact ⟨.none, rfl⟩
  | some a =>
      cases h with
      | cons ha h =>
          cases h
          exact ⟨.some ha, rfl⟩

end

variable {R : Node → Node → Prop} {n : Node} {es : List Node}

/-- A node with related parts in the place of those that it had. -/
theorem parts_withChildren (h : List.Forall₂ R n.children es) :
    Parts R n (n.withChildren es) ∧ (n.withChildren es).children = es := by
  -- The kinds of nodes by the parts that they have.  Where parts may be missing, the numbers of those on the
  -- left say where each one on the right belongs.
  cases n <;> simp only [children, fields, Field.nodes, List.flatMap_cons, List.flatMap_nil,
    List.append_nil, List.cons_append, List.nil_append] at h
  case text | literal | symbol =>
    cases h
    exact ⟨by constructor, rfl⟩
  case group => exact ⟨.group h, by simp [withChildren, children, fields, Field.nodes]⟩
  case capture | unary | operand | filter | block | overridden | extend | embed | importAll
      | importNames =>
    obtain _ | ⟨ha, _ | _⟩ := h
    exact ⟨by constructor; exact ha, rfl⟩
  case pair | binary | lookup | call | definition | bind =>
    obtain _ | ⟨ha, _ | ⟨hb, _ | _⟩⟩ := h
    exact ⟨by constructor; exacts [ha, hb], rfl⟩
  case compare | tagCall =>
    obtain _ | ⟨ha, h⟩ := h
    exact ⟨by constructor; exacts [ha, h], by simp [withChildren, children, fields, Field.nodes]⟩
  case choice | branch =>
    obtain _ | ⟨ha, _ | ⟨hb, h⟩⟩ := h
    obtain ⟨hc, hrest⟩ := optionRel_head? h
    exact ⟨by constructor; exacts [ha, hb, hc],
      by simpa [withChildren, children, fields, Field.nodes] using hrest.symm⟩
  case loop =>
    obtain _ | ⟨ha, _ | ⟨hb, _ | ⟨hc, h⟩⟩⟩ := h
    obtain ⟨hd, hrest⟩ := optionRel_head? h
    exact ⟨.loop ha hb hc hd,
      by simpa [withChildren, children, fields, Field.nodes] using hrest.symm⟩
  case slice =>
    obtain ⟨as, rest, rfl, has, h⟩ := forall₂_append_left h
    obtain ⟨bs, cs, rfl, hbs, hcs⟩ := forall₂_append_left h
    obtain ⟨⟨ha, has'⟩, ⟨hb, hbs'⟩, hc, hcs'⟩ :=
      And.intro (optionRel_head? has) (And.intro (optionRel_head? hbs) (optionRel_head? hcs))
    simp only [withChildren, has.length_eq, hbs.length_eq, List.take_left', List.drop_left']
    exact ⟨.slice ha hb hc, by simp [children, fields, Field.nodes, ← has', ← hbs', ← hcs']⟩
  case assign =>
    obtain ⟨as, rest, rfl, has, h⟩ := forall₂_append_left h
    obtain ⟨bs, cs, rfl, hbs, hcs⟩ := forall₂_append_left h
    obtain ⟨⟨hb, hbs'⟩, hc, hcs'⟩ := And.intro (optionRel_head? hbs) (optionRel_head? hcs)
    simp only [withChildren, has.length_eq, hbs.length_eq, List.take_left', List.drop_left']
    exact ⟨.assign has hb hc, by simp [children, fields, Field.nodes, ← hbs', ← hcs']⟩

/-- A node with other parts, as many as there were. -/
theorem withChildren_of_length (h : es.length = n.children.length) :
    Parts (fun _ _ => True) n (n.withChildren es) ∧ (n.withChildren es).children = es :=
  parts_withChildren (List.forall₂_iff_get.2 ⟨h.symm, fun _ _ _ => trivial⟩)

/-- A node with the parts that it had. -/
theorem withChildren_children (n : Node) : n.withChildren n.children = n := by
  cases n <;> simp [withChildren, children, fields, Field.nodes]

/-! ### Going through the parts -/

section

variable {σ : Type} {f : Node → StateM σ (Rewritten Node)}

theorem mapAll_append (ns ms : List Node) (s : σ) :
    mapAll f (ns ++ ms) s =
      let first := mapAll f ns s
      let second := mapAll f ms first.2
      (Rewritten.map₂ (· ++ ·) first.1 second.1, second.2) := by
  induction ns generalizing s with
  | nil =>
      change _ = (Rewritten.mk (mapAll f ms s).1.result (false || (mapAll f ms s).1.changed),
        (mapAll f ms s).2)
      rw [Bool.false_or]
      rfl
  | cons n rest ih =>
      change (Rewritten.map₂ List.cons (f n s).1 (mapAll f (rest ++ ms) (f n s).2).1,
        (mapAll f (rest ++ ms) (f n s).2).2) = _
      rw [ih]
      refine Prod.ext ?_ rfl
      simp only [Rewritten.map₂, Rewritten.mk.injEq]
      exact ⟨rfl, (Bool.or_assoc _ _ _).symm⟩

theorem mapOption_eq (o : Option Node) (s : σ) :
    mapOption f o s = ((mapAll f o.toList s).1.map List.head?, (mapAll f o.toList s).2) := by
  cases o with
  | none => rfl
  | some c =>
      change (Rewritten.mk (some (f c s).1.result) (f c s).1.changed, (f c s).2) =
        (Rewritten.mk (some (f c s).1.result) ((f c s).1.changed || false), (f c s).2)
      rw [Bool.or_false]

theorem mapAll_length (ns : List Node) (s : σ) :
    (mapAll f ns s).1.result.length = ns.length := by
  induction ns generalizing s with
  | nil => rfl
  | cons n rest ih => exact congrArg (· + 1) (ih (f n s).2)

/-- Replacing the parts of a node is replacing the nodes of a list. -/
theorem mapChildren_eq (n : Node) (s : σ) :
    mapChildren f n s = ((mapAll f n.children s).1.map n.withChildren, (mapAll f n.children s).2) := by
  have hbind : ∀ {α β : Type} (x : StateM σ α) (g : α → StateM σ β) (t : σ),
      (x >>= g) t = g (x t).1 (x t).2 := fun _ _ _ => rfl
  have hpure : ∀ {α : Type} (a : α) (t : σ), (pure a : StateM σ α) t = (a, t) := fun _ _ => rfl
  have hnil : ∀ t, mapAll f [] t = (⟨[], false⟩, t) := fun _ => rfl
  have hcons : ∀ c cs t, mapAll f (c :: cs) t =
      (⟨(f c t).1.result :: (mapAll f cs (f c t).2).1.result,
        (f c t).1.changed || (mapAll f cs (f c t).2).1.changed⟩, (mapAll f cs (f c t).2).2) :=
    fun _ _ _ => rfl
  cases n <;> simp only [children, fields, Field.nodes, List.flatMap_cons, List.flatMap_nil,
    List.append_nil, List.cons_append, List.nil_append, mapChildren, hnil, hcons, mapAll_append,
    mapOption_eq, hbind, hpure, Rewritten.map, Rewritten.map₂, Rewritten.map₃, Rewritten.unchanged,
    withChildren, Bool.or_assoc, Bool.or_false]
  all_goals simp [List.take_left', List.drop_left', mapAll_length]

/-- Nodes among which nothing was replaced are those that they were. -/
theorem mapAll_result_eq {ns : List Node}
    (h : ∀ c ∈ ns, ∀ s, (f c s).1.changed = false → (f c s).1.result = c) {s : σ}
    (hs : (mapAll f ns s).1.changed = false) : (mapAll f ns s).1.result = ns := by
  induction ns generalizing s with
  | nil => rfl
  | cons c rest ih =>
      have hs' : (f c s).1.changed = false ∧ (mapAll f rest (f c s).2).1.changed = false :=
        Bool.or_eq_false_iff.1 hs
      exact congrArg₂ List.cons (h c List.mem_cons_self s hs'.1)
        (ih (fun c hc => h c (List.mem_cons_of_mem _ hc)) hs'.2)

end

/-- What a rewriting makes of a node that it goes through. -/
theorem rewrite_descend {σ : Type} {r : Rewriter σ} {n : Node} (h : r.enter n = .descend) (s : σ) :
    let cs := mapAll (rewrite r) n.children s
    let m := n.withChildren cs.1.result
    (rewrite r n s).1.result = (r.leave m cs.2).1.getD m ∧ (rewrite r n s).2 = (r.leave m cs.2).2 := by
  obtain ⟨hresult, hstate⟩ := visit_descend h (mapChildren (rewrite r) n) s
  rw [rewrite_eq_visit, hresult, hstate, mapChildren_eq]
  exact ⟨rfl, rfl⟩

/-- What a rewriting makes of a node that it leaves alone. -/
theorem rewrite_keep {σ : Type} {r : Rewriter σ} {n : Node} (h : r.enter n = .keep) (s : σ) :
    rewrite r n s = (.unchanged n, s) := by
  rw [rewrite_eq_visit, Rewriter.visit, h]
  rfl

/-- A tree in which nothing was replaced is the tree that it was. -/
theorem rewrite_result_eq {σ : Type} (r : Rewriter σ) {n : Node} {s : σ}
    (h : (rewrite r n s).1.changed = false) : (rewrite r n s).1.result = n := by
  induction n using childInduction generalizing s with
  | step n ih =>
      cases henter : r.enter n with
      | keep =>
          rw [rewrite_keep henter]
          rfl
      | replace m =>
          rw [rewrite_eq_visit, Rewriter.visit, henter] at h
          cases h
      | descend =>
          rw [rewrite_eq_visit, visit_eq r henter] at h ⊢
          cases hleave : (r.leave (mapChildren (rewrite r) n s).1.result
              (mapChildren (rewrite r) n s).2).1 with
          | some m =>
              rw [hleave] at h
              cases h
          | none =>
              rw [hleave] at h
              dsimp only [Option.elim] at h ⊢
              rw [mapChildren_eq] at h ⊢
              have hparts := mapAll_result_eq (fun c hc _ => ih c hc) h
              change n.withChildren _ = n
              rw [hparts, withChildren_children]

/-! ### Runs -/

/-- A list of nodes that was gone through: each node became another one, and the state was passed from
each to the next. -/
inductive Run {σ : Type} (T : σ → Node → Node → σ → Prop) : σ → List Node → List Node → σ → Prop
  | nil {s} : Run T s [] [] s
  | cons {n n' ns ns' s s₁ s₂} (h : T s n n' s₁) (hrest : Run T s₁ ns ns' s₂) :
    Run T s (n :: ns) (n' :: ns') s₂

variable {σ : Type} {T : σ → Node → Node → σ → Prop}

theorem Run.length_eq {s s' : σ} {ns ns' : List Node} (h : Run T s ns ns' s') :
    ns'.length = ns.length := by
  induction h with
  | nil => rfl
  | cons _ _ ih => exact congrArg (· + 1) ih

/-- What every step relates is related one by one. -/
theorem Run.forall₂ {R : Node → Node → Prop} {s s' : σ} {ns ns' : List Node} (h : Run T s ns ns' s')
    (hT : ∀ s n n' s', T s n n' s' → R n n') : List.Forall₂ R ns ns' := by
  induction h with
  | nil => exact .nil
  | cons h _ ih => exact .cons (hT _ _ _ _ h) ih

theorem mapAll_run {f : Node → StateM σ (Rewritten Node)} {ns : List Node}
    (h : ∀ c ∈ ns, ∀ s, T s c (f c s).1.result (f c s).2) (s : σ) :
    Run T s ns (mapAll f ns s).1.result (mapAll f ns s).2 := by
  induction ns generalizing s with
  | nil => exact .nil
  | cons c rest ih =>
      exact .cons (h c List.mem_cons_self s) (ih (fun c hc => h c (List.mem_cons_of_mem _ hc)) _)

/-- A tree and what a rewriting makes of it, with the states before and after: it is enough to know of
each node that was gone through what it becomes.  The nodes satisfy `P`. -/
theorem rewrite_stepwise {P : Node → Prop} (r : Rewriter σ)
    (hP : ∀ n c, P n → r.enter n = .descend → c ∈ n.children → P c)
    (hreplace : ∀ n m, r.enter n ≠ .replace m)
    (hkeep : ∀ n s, P n → r.enter n = .keep → T s n n s)
    (hleave : ∀ n es s s' m, P n → r.enter n = .descend → Run T s n.children es s' →
      m = n.withChildren es → (rewrite r n s).1.result = (r.leave m s').1.getD m →
        (rewrite r n s).2 = (r.leave m s').2 → T s n ((r.leave m s').1.getD m) (r.leave m s').2)
    {n : Node} (hn : P n) (s : σ) :
    T s n (rewrite r n s).1.result (rewrite r n s).2 := by
  induction n using childInduction generalizing s with
  | step n ih =>
      cases henter : r.enter n with
      | keep =>
          rw [rewrite_keep henter]
          exact hkeep n s hn henter
      | replace m => exact absurd henter (hreplace n m)
      | descend =>
          obtain ⟨hresult, hstate⟩ := rewrite_descend henter s
          rw [hresult, hstate]
          exact hleave n _ s _ _ hn henter (mapAll_run (fun c hc => ih c hc (hP n c hn henter hc)) s) rfl hresult
            hstate

end Stencil.Node
