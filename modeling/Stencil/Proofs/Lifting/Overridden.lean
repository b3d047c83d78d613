/-
**What a tree gets for the overridden blocks.**

When the calls of overridden blocks are lifted, three things happen to a tree: a call becomes a
placeholder, a block gets the overridden block before its statements, and everything else stays what it
is.  Which placeholder it is that a call becomes does not matter to most of what is proved about lifting,
so it is left open here.

Main definitions:

* `Stencil.Node.statements` — the statements of a body;
* `Stencil.Node.GrowsAs`, `Stencil.Node.Grown` — one node, and a tree, to which no more than that
  happened.

Main results:

* `Stencil.Node.superLifting_grown` — lifting the calls of overridden blocks does no more than that;
* `Stencil.Node.Remarked.grown` — and marking what may wait does not even do that.
-/

import Stencil.Proofs.Lifting.Slots
import Stencil.Proofs.Lifting.Steps
import Stencil.Proofs.Syntax.Sequencing

set_option autoImplicit false

namespace Stencil.Node

/-- The statements of a body. -/
def statements : Node → List Node
  | group .sequence _ members => members
  | other => [other]

/-- One node to which no more happened than that a call of the overridden block became a placeholder, or
that the overridden block came before the statements of a block. -/
inductive GrowsAs (R : Node → Node → Prop) : Node → Node → Prop
  | same {n n'} (h : RunsAs true (fun _ _ => True) R n n') : GrowsAs R n n'
  | call {n p k} (h : n.isSuperCall = true) : GrowsAs R n (symbol p (superPlaceholder k))
  | block {p p' q r r' name body k ms} (h : List.Forall₂ R body.statements ms) :
    GrowsAs R (block p name body)
      (block p' name (sequence q (overridden r name (symbol r' (superPlaceholder k)) :: ms)))

/-- A tree to which no more happened than that calls of overridden blocks became placeholders, and that
overridden blocks came before the statements of blocks. -/
def Grown (n n' : Node) : Prop := ∃ R, (∀ n n', R n n' → GrowsAs R n n') ∧ R n n'

variable {R Q : Node → Node → Prop} {n n' : Node}

theorem GrowsAs.mono (h : GrowsAs R n n') (hQ : ∀ c c', R c c' → Q c c') : GrowsAs Q n n' := by
  cases h with
  | same h => exact .same (h.mono fun c c' _ => hQ c c')
  | call h => exact .call h
  | block h => exact .block (h.imp hQ)

theorem Grown.cases (h : Grown n n') : GrowsAs Grown n n' := by
  obtain ⟨R, hR, h⟩ := h
  exact (hR n n' h).mono fun c c' hc => ⟨R, hR, hc⟩

theorem Grown.refl (n : Node) : Grown n n :=
  ⟨Eq, fun n _ h => h ▸ .same (.of_alike (.refl (fun _ => trivial) (fun _ => rfl) n)), rfl⟩

/-- A tree of which only the marks are others. -/
theorem Remarked.grown (h : Remarked true n n') : Grown n n' :=
  ⟨Remarked true, fun _ _ h => .same h.cases, h⟩

/-- Marking more does no more to a tree. -/
theorem Grown.remarked {m : Node} (h : Grown n m) (h' : Remarked true m n') : Grown n n' := by
  refine ⟨fun n k => ∃ m, Grown n m ∧ Remarked true m k, fun n k hnk => ?_, m, h, h'⟩
  obtain ⟨m, h, h'⟩ := hnk
  have hboth : ∀ a b c, Grown a b → Remarked true b c → ∃ m, Grown a m ∧ Remarked true m c :=
    fun a b c hab hbc => ⟨b, hab, hbc⟩
  cases h.cases with
  | same hsame => exact .same (hsame.trans hboth h'.cases)
  | call hcall =>
      cases h'.cases with
      | alike halike =>
          cases halike
          exact .call hcall
  | block hms =>
      cases h'.cases with
      | alike halike =>
          cases halike with
          | block _ hbody =>
              cases hbody.cases with
              | alike hbody =>
                  cases hbody with
                  | group _ hlist =>
                      cases hlist with
                      | cons hfirst hrest =>
                          cases hfirst.cases with
                          | alike hfirst =>
                              cases hfirst with
                              | overridden _ htarget =>
                                  cases htarget.cases with
                                  | alike htarget =>
                                      cases htarget
                                      exact .block (forall₂_trans hboth hms hrest)

/-! ### Induction -/

theorem mem_statements {m : Node} (h : m ∈ n.statements) :
    m = n ∨ (n.isSuperCall = false ∧ n.isBlock = false ∧ m ∈ n.children) := by
  unfold statements at h
  split at h
  · exact .inr ⟨rfl, rfl, by simpa [children, fields, Field.nodes] using h⟩
  · exact .inl (List.mem_singleton.1 h)

theorem everywhere_statements {Q : Node → Prop} (h : n.Everywhere Q) :
    ∀ m ∈ n.statements, m.Everywhere Q := by
  intro m hm
  rcases mem_statements hm with rfl | ⟨_, _, hc⟩
  · exact h
  · exact h.child hc

theorem size_statement {m : Node} (h : m ∈ n.statements) : m.size ≤ n.size := by
  rcases mem_statements h with rfl | ⟨_, _, hc⟩
  · exact le_rfl
  · exact (size_lt_of_mem_children hc).le

/-- What holds of two nodes if it holds of what lies below them, holds of two such trees. -/
theorem Grown.induction {P : Node → Node → Prop}
    (step : ∀ n n', GrowsAs (fun c c' => Grown c c' ∧ P c c') n n' → P n n') (h : Grown n n') :
    P n n' := by
  induction hk : n.size using Nat.strongRecOn generalizing n n' with
  | ind k ih =>
      subst hk
      have hbelow : ∀ c c', c.size < n.size → Grown c c' → Grown c c' ∧ P c c' :=
        fun c c' hc h => ⟨h, ih c.size hc h rfl⟩
      refine step n n' ?_
      cases h.cases with
      | same hsame => exact .same (hsame.mono fun c c' hc => hbelow c c' (size_lt_of_mem_children hc))
      | call hcall => exact .call hcall
      | @block p _ _ _ _ name body k ms hms =>
          have hbody : body.size < (block p name body).size :=
            size_lt_of_mem_children (by simp [children, fields, Field.nodes])
          exact .block (forall₂_mono (fun c c' hc => hbelow c c' ((size_statement hc).trans_lt hbody)) hms)

/-! ### What stays -/

theorem superPlaceholder_ne_super (k : Nat) : superPlaceholder k ≠ "super" := by
  intro h
  have hhead := congrArg (fun s => s.toList.head?) h
  simp [superPlaceholder] at hhead

namespace GrowsAs

/-- A name is the name that it was, or a placeholder. -/
theorem asSymbol? (h : GrowsAs R n n') :
    n'.asSymbol? = n.asSymbol? ∨ ∃ k, n'.asSymbol? = some (superPlaceholder k) := by
  cases h with
  | same h =>
      cases h with
      | alike h => cases h <;> exact .inl rfl
      | branch | loop => exact .inl rfl
  | call => exact .inr ⟨_, rfl⟩
  | block => exact .inl rfl

theorem members (h : GrowsAs R n n') : List.Forall₂ R n.members n'.members := by
  cases h with
  | same h =>
      cases h with
      | alike h =>
          cases h with
          | group _ h => exact h
          | _ => exact .nil
      | branch | loop => exact .nil
  | @call n p k h =>
      cases n with
      | call => exact .nil
      | _ => cases h
  | block => exact .nil

/-- The slots of two nodes are related one by one. -/
theorem slots (h : GrowsAs R n n') : List.Forall₂ R n.slots n'.slots := by
  cases h with
  | same h =>
      cases h with
      | alike h =>
          cases h with
          | @group k _ _ _ _ _ h =>
              cases k with
              | output => exact h
              | _ => exact .nil
          | assign _ h ha hb =>
              cases ha with
              | none => exact .nil
              | some ha => exact .cons ha .nil
          | loop _ ha | branch _ ha | tagCall _ ha => exact .cons ha .nil
          | _ => exact .nil
      | branch _ ha | loop _ _ ha => exact .cons ha .nil
  | @call n p k h =>
      cases n with
      | call => exact .nil
      | _ => cases h
  | block => exact .nil

theorem isBlock (h : GrowsAs R n n') : n'.isBlock = n.isBlock := by
  cases h with
  | same h =>
      cases h with
      | alike h => cases h <;> rfl
      | branch | loop => rfl
  | @call n p k h =>
      cases n with
      | call => rfl
      | _ => cases h
  | block => rfl

theorem isLiftedApart (h : GrowsAs R n n') : n'.isLiftedApart = n.isLiftedApart := by
  cases h with
  | same h =>
      cases h with
      | alike h =>
          cases h with
          | @definition _ _ role => cases role <;> rfl
          | _ => rfl
      | branch | loop => rfl
  | @call n p k h =>
      cases n with
      | call => rfl
      | _ => cases h
  | block => rfl

theorem mayCallAsync (h : GrowsAs R n n') (filters : List String) :
    n'.mayCallAsync filters = n.mayCallAsync filters := by
  cases h with
  | same h =>
      cases h with
      | alike h => cases h <;> rfl
      | branch | loop => rfl
  | @call n p k h =>
      cases n with
      | call => rfl
      | _ => cases h
  | block => rfl

/-- A node is a list of statements if it was one. -/
theorem statements (h : GrowsAs R n n') (hn : R n n') :
    List.Forall₂ R n.statements n'.statements := by
  cases h with
  | same h =>
      cases h with
      | alike h =>
          cases h with
          | @group k _ _ _ _ _ h =>
              cases k with
              | sequence => exact h
              | _ => exact .cons hn .nil
          | _ => exact .cons hn .nil
      | branch | loop => exact .cons hn .nil
  | @call n p k h =>
      cases n with
      | call => exact .cons hn .nil
      | _ => cases h
  | block => exact .cons hn .nil

/-- A block is a block, with what its body was or with its statements after the overridden block. -/
theorem of_block {p : Position} {name : String} {body : Node}
    (h : GrowsAs R (.block p name body) n') :
    (∃ p' body', n' = .block p' name body' ∧ R body body') ∨
      ∃ p' q r r' k ms, n' = .block p' name
          (sequence q (overridden r name (symbol r' (superPlaceholder k)) :: ms)) ∧
        List.Forall₂ R body.statements ms := by
  cases h with
  | same h =>
      cases h with
      | alike h =>
          cases h with
          | block _ h => exact .inl ⟨_, _, rfl, h⟩
  | call h => cases h
  | block h => exact .inr ⟨_, _, _, _, _, _, rfl, h⟩

/-- Below a node that is no block lies what lay there, or nothing. -/
theorem children (h : GrowsAs R n n') (hn : n.isBlock = false) :
    List.Forall₂ R n.children n'.children ∨ n'.children = [] := by
  cases h with
  | same h => exact .inl h.children
  | call => exact .inr rfl
  | block => cases hn

end GrowsAs

/-- A call of the overridden block was one before the parts of it were replaced. -/
theorem isSuperCall_of_parts (h : Alike (fun _ _ => True) R n n')
    (hR : ∀ c ∈ n.children, ∀ c', R c c' → GrowsAs R c c') (hn : n'.isSuperCall = true) :
    n.isSuperCall = true := by
  rw [isSuperCall_eq] at hn ⊢
  cases h with
  | @call p p' a b a' b' hp ha hb =>
      have ha' := hR a (by simp [children, fields, Field.nodes]) a' ha
      have hb' := hR b (by simp [children, fields, Field.nodes]) b' hb
      simp only [Bool.and_eq_true, beq_iff_eq, List.isEmpty_iff] at hn ⊢
      refine ⟨?_, ?_⟩
      · rcases ha'.asSymbol? with hname | ⟨k, hname⟩
        · rw [← hname, hn.1]
        · rw [hname, Option.some.injEq] at hn
          exact absurd hn.1 (superPlaceholder_ne_super k)
      · have hmembers := hb'.members
        exact List.length_eq_zero_iff.1 (hmembers.length_eq.trans (by rw [hn.2]; rfl))
  | _ => cases hn

/-- What is a call of the overridden block was one. -/
theorem GrowsAs.isSuperCall (h : GrowsAs R n n') (hR : ∀ c c', R c c' → GrowsAs R c c')
    (hn : n'.isSuperCall = true) : n.isSuperCall = true := by
  cases h with
  | same h =>
      cases h with
      | alike h => exact isSuperCall_of_parts h (fun c _ => hR c) hn
      | branch | loop => cases hn
  | call | block => cases hn

/-! ### Lifting the calls of overridden blocks -/

theorem superCalls_enter (target n : Node) :
    (superCalls target).enter n = if n.isBlock then .keep else .descend := rfl

/-- Calls are replaced below a node that is no block, and then the node itself may be. -/
theorem superCalls_result {target : Node} (h : n.isBlock = false) :
    (rewrite (superCalls target) n ()).1.result =
      let m := n.withChildren (mapAll (rewrite (superCalls target)) n.children ()).1.result
      if m.isSuperCall then target else m := by
  rw [(rewrite_descend (by rw [superCalls_enter, h]; rfl) ()).1]
  dsimp only
  change (if _ then some target else none).getD _ = _
  split <;> rfl

theorem exists_of_isBlock (h : n.isBlock = true) : ∃ p name body, n = block p name body := by
  cases n with
  | block => exact ⟨_, _, _, rfl⟩
  | _ => cases h

/-- Nothing is lifted from a node that is no block. -/
theorem liftSuper?_eq_none (h : n.isBlock = false) : liftSuper? n = pure none := by
  cases n with
  | block => cases h
  | _ => rfl

theorem isBlock_withChildren {es : List Node} (h : es.length = n.children.length) :
    (n.withChildren es).isBlock = n.isBlock :=
  (withChildren_of_length h).1.isBlock

/-- What becomes of a node that is no block. -/
theorem superLifting_other (h : n.isBlock = false) (s : Nat) :
    rewrite superLifting n s = let cs := mapAll (rewrite superLifting) n.children s
      (cs.1.map n.withChildren, cs.2) := by
  have hlength := mapAll_length (f := rewrite superLifting) n.children s
  rw [rewrite_eq_visit, visit_eq superLifting rfl, mapChildren_eq]
  change ((liftSuper? (n.withChildren _) _).1.elim _ _, (liftSuper? (n.withChildren _) _).2) = _
  rw [liftSuper?_eq_none (by rw [isBlock_withChildren hlength, h])]
  rfl

/-- What becomes of a block. -/
theorem superLifting_block (p : Position) (name : String) (body : Node) (s : Nat) :
    let inner := rewrite superLifting body s
    let target := symbol p (superPlaceholder inner.2)
    let calls := (rewrite (superCalls target) inner.1.result ()).1
    (rewrite superLifting (block p name body) s).1.result =
        (if calls.changed then block p name
          (sequence calls.result.position (overridden p name target :: calls.result.statements))
        else block p name inner.1.result) ∧
      (rewrite superLifting (block p name body) s).2 =
        if calls.changed then inner.2 + 1 else inner.2 := by
  dsimp only
  obtain ⟨hresult, hstate⟩ := rewrite_descend (r := superLifting) (n := block p name body) rfl s
  rw [hresult, hstate]
  change ((liftSuper? (block p name (rewrite superLifting body s).1.result)
      (rewrite superLifting body s).2).1).getD (block p name (rewrite superLifting body s).1.result) = _ ∧
    (liftSuper? (block p name (rewrite superLifting body s).1.result)
      (rewrite superLifting body s).2).2 = _
  rw [liftSuper?_eq]
  dsimp only
  split <;> exact ⟨rfl, rfl⟩

/-- What becomes of a node: the calls in the blocks below it are lifted, and then those of a block around
it may be, for which there is a placeholder then. -/
inductive SuperLifted : Node → Node → Prop
  | inner (n s) : SuperLifted n (rewrite superLifting n s).1.result
  | outer (n s p k) : SuperLifted n
    (rewrite (superCalls (symbol p (superPlaceholder k))) (rewrite superLifting n s).1.result ()).1.result

theorem mapAll_forall₂ {σ : Type} (r : Rewriter σ) (ns : List Node) (s : σ) :
    List.Forall₂ (fun n n' => ∃ s, n' = (rewrite r n s).1.result) ns
      (mapAll (rewrite r) ns s).1.result :=
  (mapAll_run (T := fun _ n n' _ => ∃ s, n' = (rewrite r n s).1.result)
    (fun _ _ s => ⟨s, rfl⟩) s).forall₂ fun _ _ _ _ h => h

/-- One node from which calls are lifted. -/
theorem superLifted_growsAs (h : SuperLifted n n') : GrowsAs SuperLifted n n' := by
  induction n using childInduction generalizing n' with
  | step n ih =>
      -- A block is not entered from outside, so that there is nothing to replace in it.  Of any other node the
      -- parts change first, and then it may be a call.
      cases hblock : n.isBlock with
      | true =>
          obtain ⟨p, name, body, rfl⟩ := exists_of_isBlock hblock
          have hsame : ∀ s, GrowsAs SuperLifted (block p name body)
                (rewrite superLifting (block p name body) s).1.result ∧
              (rewrite superLifting (block p name body) s).1.result.isBlock = true := by
            intro s
            rw [(superLifting_block p name body s).1]
            split
            · have hbody := SuperLifted.outer body s p (rewrite superLifting body s).2
              have hgrows := ih body (by simp [children, fields, Field.nodes]) hbody
              exact ⟨.block (hgrows.statements hbody), rfl⟩
            · exact ⟨.same (.of_alike (.block trivial (.inner body s))), rfl⟩
          cases h with
          | inner s => exact (hsame s).1
          | outer s q k =>
              rw [rewrite_keep (by rw [superCalls_enter, (hsame s).2]; rfl)]
              exact (hsame s).1
      | false =>
          have hinner : ∀ s, Parts (fun c c' => ∃ s, c' = (rewrite superLifting c s).1.result) n
              (rewrite superLifting n s).1.result := by
            intro s
            rw [superLifting_other hblock]
            exact (parts_withChildren (mapAll_forall₂ superLifting n.children s)).1
          cases h with
          | inner s =>
              refine .same (.of_alike ((hinner s).alike.mono fun c c' _ hc => ?_))
              obtain ⟨s, rfl⟩ := hc
              exact .inner c s
          | outer s q k =>
              have hm := hinner s
              generalize (rewrite superLifting n s).1.result = m at hm ⊢
              rw [superCalls_result (by rw [hm.isBlock, hblock])]
              have hcalls := (parts_withChildren
                (mapAll_forall₂ (superCalls (symbol q (superPlaceholder k))) m.children ())).1
              have hparts : Alike (fun _ _ => True) SuperLifted n _ :=
                hm.alike.trans (fun _ _ _ _ _ => trivial) (fun c c' c'' h h' => by
                  obtain ⟨s, rfl⟩ := h
                  obtain ⟨_, rfl⟩ := h'
                  exact .outer c s q k) hcalls.alike
              dsimp only
              split
              · rename_i hcall
                exact .call (isSuperCall_of_parts hparts (fun c hc c' h => ih c hc h) hcall)
              · exact .same (.of_alike hparts)

/-- Lifting the calls of overridden blocks does no more to a tree than that. -/
theorem superLifting_grown (n : Node) (s : Nat) : Grown n (rewrite superLifting n s).1.result :=
  ⟨SuperLifted, fun _ _ => superLifted_growsAs, .inner n s⟩

end Stencil.Node
