/-
**What a rewriting makes of a tree.**

A rewriting goes through all nodes, but what it makes of a node only depends on what it makes of the
nodes below.  A relation between trees and their results is known as soon as it is known for one node
whose parts are related already.

Main definitions:

* `Stencil.Node.Parts` — two nodes of one kind, the parts of which are related.

Main results:

* `Stencil.Node.Parts.plays`, `Stencil.Node.Parts.isFormed` — a node can be there for what it was
  there for if its parts can;
* `Stencil.Node.mapChildren_related` — a node whose parts were replaced;
* `Stencil.Node.rewrite_related` — **a tree is related to the result of a rewriting** if each node is
  that the parts of which are.
-/

import Mathlib.Data.List.Forall2
import Stencil.Proofs.Shapes

set_option autoImplicit false

namespace Stencil.Node

/-! ### Related parts -/

/-- Two nodes of one kind, the parts of which are related. -/
inductive Parts (R : Node → Node → Prop) : Node → Node → Prop
  | group {k p ns ns'} (h : List.Forall₂ R ns ns') : Parts R (group k p ns) (group k p ns')
  | text {p s} : Parts R (text p s) (text p s)
  | capture {p a a'} (h : R a a') : Parts R (capture p a) (capture p a')
  | literal {p v} : Parts R (literal p v) (literal p v)
  | symbol {p s} : Parts R (symbol p s) (symbol p s)
  | pair {p a b a' b'} (ha : R a a') (hb : R b b') : Parts R (pair p a b) (pair p a' b')
  | binary {p o a b a' b'} (ha : R a a') (hb : R b b') :
    Parts R (binary p o a b) (binary p o a' b')
  | unary {p o a a'} (h : R a a') : Parts R (unary p o a) (unary p o a')
  | compare {p a ns a' ns'} (ha : R a a') (h : List.Forall₂ R ns ns') :
    Parts R (compare p a ns) (compare p a' ns')
  | operand {p o a a'} (h : R a a') : Parts R (operand p o a) (operand p o a')
  | choice {p a b c a' b' c'} (ha : R a a') (hb : R b b') (hc : Option.Rel R c c') :
    Parts R (choice p a b c) (choice p a' b' c')
  | lookup {p a b a' b'} (ha : R a a') (hb : R b b') : Parts R (lookup p a b) (lookup p a' b')
  | slice {p a b c a' b' c'} (ha : Option.Rel R a a') (hb : Option.Rel R b b')
    (hc : Option.Rel R c c') : Parts R (slice p a b c) (slice p a' b' c')
  | call {p a b a' b'} (ha : R a a') (hb : R b b') : Parts R (call p a b) (call p a' b')
  | filter {p s a a'} (h : R a a') : Parts R (filter p s a) (filter p s a')
  | tagCall {p t a ns a' ns'} (ha : R a a') (h : List.Forall₂ R ns ns') :
    Parts R (tagCall p t a ns) (tagCall p t a' ns')
  | branch {p s a b c a' b' c'} (ha : R a a') (hb : R b b') (hc : Option.Rel R c c') :
    Parts R (branch p s a b c) (branch p s a' b' c')
  | loop {p m a b c d a' b' c' d'} (ha : R a a') (hb : R b b') (hc : R c c')
    (hd : Option.Rel R d d') : Parts R (loop p m a b c d) (loop p m a' b' c' d')
  | assign {p ns a b ns' a' b'} (h : List.Forall₂ R ns ns') (ha : Option.Rel R a a')
    (hb : Option.Rel R b b') : Parts R (assign p ns a b) (assign p ns' a' b')
  | definition {p r s a b a' b'} (ha : R a a') (hb : R b b') :
    Parts R (definition p r s a b) (definition p r s a' b')
  | block {p s a a'} (h : R a a') : Parts R (block p s a) (block p s a')
  | overridden {p s a a'} (h : R a a') : Parts R (overridden p s a) (overridden p s a')
  | extend {p a a'} (h : R a a') : Parts R (extend p a) (extend p a')
  | embed {p i a a'} (h : R a a') : Parts R (embed p a i) (embed p a' i)
  | importAll {p t c a a'} (h : R a a') : Parts R (importAll p a t c) (importAll p a' t c)
  | importNames {p ns c a a'} (h : R a a') : Parts R (importNames p a ns c) (importNames p a' ns c)
  | bind {p a b a' b'} (ha : R a a') (hb : R b b') : Parts R (bind p a b) (bind p a' b')

theorem optionRel_mem {R : Node → Node → Prop} {n n' : Option Node} (h : Option.Rel R n n') :
    ∀ c' ∈ n'.toList, ∃ c ∈ n.toList, R c c' := by
  cases h with
  | none => simp
  | some h => simpa using h

theorem forall₂_mem {α : Type} {R : α → α → Prop} {ns ns' : List α} (h : List.Forall₂ R ns ns') :
    ∀ c' ∈ ns', ∃ c ∈ ns, R c c' := by
  induction h with
  | nil => simp
  | cons h _ ih =>
      intro c' hc'
      rcases List.mem_cons.1 hc' with rfl | hc'
      · exact ⟨_, List.mem_cons_self, h⟩
      · obtain ⟨c, hc, hR⟩ := ih c' hc'
        exact ⟨c, List.mem_cons_of_mem _ hc, hR⟩

/-- What lies directly below the second of two nodes is related to something below the first. -/
theorem Parts.mem {R : Node → Node → Prop} {n n' : Node} (h : Parts R n n') :
    ∀ c' ∈ n'.children, ∃ c ∈ n.children, R c c' := by
  intro c' hc'
  cases h <;>
    simp only [children, fields, Field.nodes, List.flatMap_cons, List.flatMap_nil, List.append_nil,
      List.mem_append, List.mem_singleton, List.not_mem_nil] at hc' ⊢ <;>
    grind [→ forall₂_mem, optionRel_mem]

/-- A node is as it was if its parts are. -/
theorem Parts.of_same {R : Node → Node → Prop} {n : Node} (h : ∀ c ∈ n.children, R c c) :
    Parts R n n := by
  have hoption : ∀ {o : Option Node}, (∀ c ∈ o.toList, R c c) → Option.Rel R o o := by
    intro o ho
    cases o with
    | none => exact .none
    | some c => exact .some (ho c (by simp))
  cases n <;> constructor <;>
    first
    | exact h _ (by simp [children, fields, Field.nodes])
    | exact List.forall₂_same.2 fun c hc => h c (by simp [children, fields, Field.nodes, hc])
    | exact hoption fun c hc => h c (by
        simp [children, fields, Field.nodes, Option.mem_toList.1 hc])

/-! ### Roles -/

/-- The parts of related nodes have the same roles. -/
theorem Parts.parts {R : Node → Node → Prop} {n n' : Node} (h : Parts R n n') :
    List.Forall₂ (fun a b => b.1 = a.1 ∧ R a.2 b.2) n.parts n'.parts := by
  have heach : ∀ (r : Role) {ns ns' : List Node}, List.Forall₂ R ns ns' →
      List.Forall₂ (fun a b => b.1 = a.1 ∧ R a.2 b.2) (eachAs r ns) (eachAs r ns') := by
    intro r ns ns' h
    simpa [eachAs, List.forall₂_map_left_iff, List.forall₂_map_right_iff] using h
  have hoption : ∀ (r : Role) {o o' : Option Node}, Option.Rel R o o' →
      List.Forall₂ (fun a b => b.1 = a.1 ∧ R a.2 b.2) (eachAs r o.toList) (eachAs r o'.toList) := by
    intro r o o' h
    cases h with
    | none => exact .nil
    | some h => exact heach r (.cons h .nil)
  cases h with
  | @group kind p ns ns' h => cases kind <;> exact heach _ h
  | text | literal | symbol => exact .nil
  | capture h | unary h | operand h | filter h | block h | overridden h | extend h | embed h
  | importAll h | importNames h => exact .cons ⟨rfl, h⟩ .nil
  | pair ha hb | binary ha hb | lookup ha hb | call ha hb | definition ha hb | bind ha hb =>
      exact .cons ⟨rfl, ha⟩ (.cons ⟨rfl, hb⟩ .nil)
  | compare ha h | tagCall ha h => exact .cons ⟨rfl, ha⟩ (heach _ h)
  | choice ha hb hc | branch ha hb hc =>
      exact .cons ⟨rfl, ha⟩ (.cons ⟨rfl, hb⟩ (hoption _ hc))
  | slice ha hb hc =>
      exact List.rel_append (List.rel_append (hoption _ ha) (hoption _ hb)) (hoption _ hc)
  | loop ha hb hc hd => exact .cons ⟨rfl, ha⟩ (.cons ⟨rfl, hb⟩ (.cons ⟨rfl, hc⟩ (hoption _ hd)))
  | assign h ha hb => exact List.rel_append (List.rel_append (heach _ h) (hoption _ ha)) (hoption _ hb)

section Roles

variable {R : Node → Node → Prop}
  (hR : ∀ c c', R c c' → ∀ r, c.plays r = true → c'.plays r = true)

include hR

theorem isListOf_related {r : Role} {test : Node → Bool} (htest : ∀ n, n.plays r = test n)
    {ns ns' : List Node} (h : List.Forall₂ R ns ns') (hns : isListOf test ns = true) :
    isListOf test ns' = true := by
  have hone : ∀ {c c' : Node}, R c c' → test c = true → test c' = true := fun hc htrue =>
    htest _ ▸ hR _ _ hc r ((htest _).trans htrue)
  induction h with
  | nil => rfl
  | @cons c c' rest rest' hc hrest ih =>
      cases hrest with
      | nil =>
          have hlast : test c = true ∨ Render.isKeywords c = true := by simpa [isListOf] using hns
          have hlast' : test c' = true ∨ Render.isKeywords c' = true :=
            hlast.imp (hone hc) (hR _ _ hc .keywords)
          simpa [isListOf] using hlast'
      | cons hd hmore =>
          simp only [isListOf, Bool.and_eq_true] at hns ⊢
          exact ⟨hone hc hns.1, ih hns.2⟩

/-- A node whose parts can be there for what they were, can be there for what it was. -/
theorem Parts.plays {n n' : Node} (h : Parts R n n') {r : Role} (hn : n.plays r = true) :
    n'.plays r = true := by
  cases h with
  | @group kind p ns ns' h =>
      cases kind with
      | array =>
          cases r with
          | target =>
              have hns : 2 ≤ ns.length ∧ ∀ m ∈ ns, m.isSymbol = true := by
                simpa [Node.plays, isTarget] using hn
              have hns' : 2 ≤ ns'.length ∧ ∀ m ∈ ns', m.isSymbol = true := by
                refine ⟨h.length_eq ▸ hns.1, fun m' hm' => ?_⟩
                obtain ⟨m, hm, hmm'⟩ := forall₂_mem h m' hm'
                exact hR m m' hmm' .name (hns.2 m hm)
              simpa [Node.plays, isTarget] using hns'
          | _ => exact hn
      | sequence =>
          cases r with
          | arguments => exact isListOf_related hR (r := .value) (fun _ => rfl) h hn
          | parameters => exact isListOf_related hR (r := .name) (fun _ => rfl) h hn
          | _ => exact hn
      | _ => cases r <;> exact hn
  | pair ha hb =>
      cases r with
      | keyword => exact hR _ _ ha .name hn
      | _ => exact hn
  | @definition p role name a b a' b' ha hb => cases role <;> cases r <;> exact hn
  | _ => cases r <;> exact hn

/-- A node whose parts can be there for what they were, is formed if it was. -/
theorem Parts.isFormed {n n' : Node} (h : Parts R n n') (hn : n.isFormed = true) :
    n'.isFormed = true := by
  obtain ⟨hwhole, hplays⟩ := isFormed_iff.1 hn
  refine isFormed_iff.2 ⟨?_, fun r c' hc' => ?_⟩
  · cases h with
    | assign h ha hb => cases ha <;> cases hb <;> exact hwhole
    | _ => exact hwhole
  · obtain ⟨⟨_, c⟩, hc, rfl, hcc'⟩ := forall₂_mem h.parts _ hc'
    exact hR c c' hcc' _ (hplays _ c hc)

end Roles

/-! ### Replacing parts -/

section

variable {σ : Type} {R : Node → Node → Prop} {I : σ → Prop}
  {f : Node → StateM σ (Rewritten Node)}

theorem mapAll_related {ns : List Node}
    (h : ∀ n ∈ ns, ∀ s, I s → R n (f n s).1.result ∧ I (f n s).2) {s : σ} (hs : I s) :
    List.Forall₂ R ns (mapAll f ns s).1.result ∧ I (mapAll f ns s).2 := by
  induction ns generalizing s with
  | nil => exact ⟨.nil, hs⟩
  | cons n rest ih =>
      have hn := h n List.mem_cons_self s hs
      have hrest := ih (fun m hm => h m (List.mem_cons_of_mem _ hm)) hn.2
      exact ⟨.cons hn.1 hrest.1, hrest.2⟩

theorem mapOption_related {n : Option Node}
    (h : ∀ m ∈ n.toList, ∀ s, I s → R m (f m s).1.result ∧ I (f m s).2) {s : σ} (hs : I s) :
    Option.Rel R n (mapOption f n s).1.result ∧ I (mapOption f n s).2 := by
  cases n with
  | none => exact ⟨.none, hs⟩
  | some n =>
      have hn := h n (by simp) s hs
      exact ⟨.some hn.1, hn.2⟩

/-- A node whose parts were replaced. -/
theorem mapChildren_related {n : Node}
    (h : ∀ c ∈ n.children, ∀ s, I s → R c (f c s).1.result ∧ I (f c s).2) {s : σ} (hs : I s) :
    Parts R n (mapChildren f n s).1.result ∧ I (mapChildren f n s).2 := by
  have hall : ∀ {ns : List Node}, (∀ c ∈ ns, c ∈ n.children) → ∀ {s : σ}, I s →
      List.Forall₂ R ns (mapAll f ns s).1.result ∧ I (mapAll f ns s).2 :=
    fun hns _ hs => mapAll_related (fun c hc => h c (hns c hc)) hs
  have hoption : ∀ {o : Option Node}, (∀ c ∈ o.toList, c ∈ n.children) → ∀ {s : σ}, I s →
      Option.Rel R o (mapOption f o s).1.result ∧ I (mapOption f o s).2 :=
    fun ho _ hs => mapOption_related (fun c hc => h c (ho c hc)) hs
  -- The kinds of nodes by the parts that they have.  Each part is rewritten in the state that the one before
  -- it leaves.
  cases n <;> simp only [children, fields, Field.nodes, List.flatMap_cons, List.flatMap_nil,
    List.append_nil, List.nil_append, List.cons_append, List.mem_append, List.mem_cons,
    List.not_mem_nil, or_false] at h hall hoption
  case text | literal | symbol => exact ⟨by constructor, hs⟩
  case capture a | unary a | operand a | filter a | block a | overridden a | extend a | embed a _
      | importAll a _ _ | importNames a _ _ =>
    have ha := h a rfl s hs
    exact ⟨by constructor; exact ha.1, ha.2⟩
  case pair a b | binary a b | lookup a b | call a b | definition a b | bind a b =>
    have ha := h a (.inl rfl) s hs
    have hb := h b (.inr rfl) _ ha.2
    exact ⟨by constructor; exacts [ha.1, hb.1], hb.2⟩
  case group ns =>
    have hns := hall (fun _ hc => hc) hs
    exact ⟨.group hns.1, hns.2⟩
  case compare a ns | tagCall a ns =>
    have ha := h a (.inl rfl) s hs
    have hns := hall (fun _ hc => .inr hc) ha.2
    exact ⟨by constructor; exacts [ha.1, hns.1], hns.2⟩
  case choice a b c | branch a b c =>
    have ha := h a (.inl rfl) s hs
    have hb := h b (.inr (.inl rfl)) _ ha.2
    have hc := hoption (fun _ hm => .inr (.inr hm)) hb.2
    exact ⟨by constructor; exacts [ha.1, hb.1, hc.1], hc.2⟩
  case slice a b c =>
    have ha := hoption (fun _ hm => .inl hm) hs
    have hb := hoption (fun _ hm => .inr (.inl hm)) ha.2
    have hc := hoption (fun _ hm => .inr (.inr hm)) hb.2
    exact ⟨.slice ha.1 hb.1 hc.1, hc.2⟩
  case loop a b c d =>
    have ha := h a (.inl rfl) s hs
    have hb := h b (.inr (.inl rfl)) _ ha.2
    have hc := h c (.inr (.inr (.inl rfl))) _ hb.2
    have hd := hoption (fun _ hm => .inr (.inr (.inr hm))) hc.2
    exact ⟨.loop ha.1 hb.1 hc.1 hd.1, hd.2⟩
  case assign ns a b =>
    have hns := hall (fun _ hm => .inl hm) hs
    have ha := hoption (fun _ hm => .inr (.inl hm)) hns.2
    have hb := hoption (fun _ hm => .inr (.inr hm)) ha.2
    exact ⟨.assign hns.1 ha.1 hb.1, hb.2⟩

end

/-! ### Whole trees -/

/-- A node whose parts are visited is what it becomes with its parts replaced, unless it is replaced
after that. -/
theorem visit_descend {σ : Type} {r : Rewriter σ} {n : Node} (h : r.enter n = .descend)
    (inside : StateM σ (Rewritten Node)) (s : σ) :
    (r.visit n inside s).1.result =
        (r.leave (inside s).1.result (inside s).2).1.getD (inside s).1.result ∧
      (r.visit n inside s).2 = (r.leave (inside s).1.result (inside s).2).2 := by
  rw [visit_eq r h]
  cases (r.leave (inside s).1.result (inside s).2).1 <;> exact ⟨rfl, rfl⟩

/-- A tree is related to the result of a rewriting if each node is that the parts of which are.  The
nodes satisfy `P`, and the states of the rewriting `I`. -/
theorem rewrite_related {σ : Type} {R : Node → Node → Prop} {P : Node → Prop} {I : σ → Prop}
    (r : Rewriter σ) (hP : ∀ n c, P n → c ∈ n.children → P c)
    (hkeep : ∀ n, P n → r.enter n = .keep → R n n) (hreplace : ∀ n m, r.enter n ≠ .replace m)
    (hleave : ∀ n n' s, P n → I s → r.enter n = .descend → Parts R n n' →
      R n ((r.leave n' s).1.getD n') ∧ I (r.leave n' s).2) {n : Node} (hn : P n) {s : σ}
    (hs : I s) : R n (rewrite r n s).1.result ∧ I (rewrite r n s).2 := by
  induction n using childInduction generalizing s with
  | step n ih =>
      rw [rewrite_eq_visit]
      cases henter : r.enter n with
      | keep =>
          rw [Rewriter.visit, henter]
          exact ⟨hkeep n hn henter, hs⟩
      | replace m => exact absurd henter (hreplace n m)
      | descend =>
          obtain ⟨hresult, hstate⟩ := visit_descend henter (mapChildren (rewrite r) n) s
          have hparts := mapChildren_related (fun c hc s hs => ih c hc (hP n c hn hc) hs) hs
          rw [hresult, hstate]
          exact hleave n _ _ hn hparts.2 henter hparts.1

end Stencil.Node
