/-
**What a prepared tree looks like.**

Preparing a tree does three things, and each could undo what another one did: binds are something that
may wait, so that statements have to be marked, and lifted statements become lists inside of other
statements.  That nothing is undone does not depend on where a tree comes from.  A tree that was prepared
has nothing left to do for any of the three, so preparing it again leaves it alone.

Main definitions:

* `Stencil.Node.Clear`, `Stencil.Node.SuperFree` — an expression without calls that may suspend, and a
  body without calls of the overridden block;
* `Stencil.Node.Settled`, `Stencil.Node.IsNormal` — a node with nothing left to do, and a tree of such
  nodes.

Main results:

* `Stencil.Node.prepared_isNormal` — **whatever is prepared has nothing left to do**, and stays what it is
  when it is prepared again.
-/

import Stencil.Proofs.Lifting.Overridden
import Stencil.Proofs.Syntax.Twins

set_option autoImplicit false

namespace Stencil.Node

/-! ### Nothing left to do -/

/-- No call that may suspend stands in an expression, except below what calls are lifted from on its
own. -/
def Clear (filters : List String) (e : Node) : Prop :=
  ∀ k ∈ e.walk isLiftedApart, k.mayCallAsync filters = false

/-- The overridden block is not called in a body outside of inner blocks. -/
def SuperFree (body : Node) : Prop := ∀ k ∈ body.walk isBlock, k.isSuperCall = false

/-- Whether a node is a conditional statement or a loop that is not marked as one that may wait. -/
def isUnmarked : Node → Bool
  | branch _ suspends _ _ _ => !suspends
  | loop _ mode _ _ _ _ => mode == .plain
  | _ => false

/-- The calls that may suspend were lifted from a node. -/
def Cleared (filters : List String) (n : Node) : Prop := ∀ e ∈ n.slots, e.Clear filters

/-- The calls of the overridden block were lifted from the body of a node that is a block. -/
def Freed (n : Node) : Prop := ∀ p name body, n = block p name body → body.SuperFree

/-- A node is marked if it holds something that may suspend outside of blocks. -/
def Marked (n : Node) : Prop :=
  n.isUnmarked = true → ∀ c ∈ n.children, ∀ k ∈ c.walk isBlock, k.maySuspend = false

/-- A node with nothing left to do. -/
structure Settled (filters : List String) (n : Node) : Prop where
  cleared : n.Cleared filters
  freed : n.Freed
  marked : n.Marked

/-- A tree with nothing left to do. -/
def IsNormal (filters : List String) (n : Node) : Prop := n.Everywhere (Settled filters)

variable {filters : List String} {n n' : Node}

theorem clear_iff : n.Clear filters ↔
    n.mayCallAsync filters = false ∧ (n.isLiftedApart = false → ∀ c ∈ n.children, c.Clear filters) :=
  forall_walk_iff

theorem superFree_iff : n.SuperFree ↔
    n.isSuperCall = false ∧ (n.isBlock = false → ∀ c ∈ n.children, c.SuperFree) :=
  forall_walk_iff

/-- What is lifted apart is no call. -/
theorem clear_of_isLiftedApart (h : n.isLiftedApart = true) : n.Clear filters := by
  refine clear_iff.2 ⟨?_, fun hapart => ?_⟩
  · cases n with
    | block | capture | bind | definition => rfl
    | _ => cases h
  · rw [h] at hapart
    cases hapart

theorem superFree_of_isBlock (h : n.isBlock = true) : n.SuperFree := by
  refine superFree_iff.2 ⟨?_, fun hblock => ?_⟩
  · cases n with
    | block => rfl
    | _ => cases h
  · rw [h] at hblock
    cases hblock

/-! ### Calls that may suspend -/

/-- An expression after the calls were taken out of it, with the binds before and after. -/
structure Collected (filters : List String) (s : Lifted) (n n' : Node) (s' : Lifted) : Prop where
  clear : n'.Clear filters
  cleared : n'.Everywhere (Cleared filters)
  /-- If no calls were taken out, nothing happened. -/
  binds : ∃ bs, s'.binds = s.binds ++ bs ∧ (∀ b ∈ bs, b.Everywhere (Cleared filters)) ∧
    (bs = [] → n' = n)

theorem Run.binds {s s' : Lifted} {ns ns' : List Node} (h : Run (Collected filters) s ns ns' s') :
    ∃ bs, s'.binds = s.binds ++ bs ∧ (∀ b ∈ bs, b.Everywhere (Cleared filters)) ∧
      (bs = [] → ns' = ns) := by
  induction h with
  | nil => exact ⟨[], by simp, by simp, fun _ => rfl⟩
  | cons h _ ih =>
      obtain ⟨bs, hbs, hcleared, hsame⟩ := h.binds
      obtain ⟨bs', hbs', hcleared', hsame'⟩ := ih
      refine ⟨bs ++ bs', by rw [hbs', hbs, List.append_assoc],
        List.forall_mem_append.2 ⟨hcleared, hcleared'⟩, fun hnil => ?_⟩
      obtain ⟨hnil, hnil'⟩ := List.append_eq_nil_iff.1 hnil
      rw [hsame hnil, hsame' hnil']

/-- The parts of a node after the calls were taken out of them. -/
theorem Run.cleared {s s' : Lifted} {ns ns' : List Node} (h : Run (Collected filters) s ns ns' s') :
    List.Forall₂ (fun _ c' => c'.Clear filters ∧ c'.Everywhere (Cleared filters)) ns ns' :=
  h.forall₂ fun _ _ _ _ h => ⟨h.clear, h.cleared⟩

theorem collector_collected (h : n.Everywhere (Cleared filters)) (s : Lifted) :
    Collected filters s n (rewrite (collector filters) n s).1.result
      (rewrite (collector filters) n s).2 := by
  -- No node is replaced before it is entered.  What is not entered has no call to be taken out, and what is
  -- entered may be one, after those of its parts were taken out.
  refine rewrite_stepwise (P := Everywhere (Cleared filters)) (collector filters)
    (fun n c hn _ hc => hn.child hc) ?_ ?_ ?_ h s
  · intro n m h
    dsimp only [collector] at h
    split at h <;> cases h
  · intro n s hn h
    refine ⟨clear_of_isLiftedApart ?_, hn, [], by simp, by simp, fun _ => rfl⟩
    dsimp only [collector] at h
    split at h
    · assumption
    · cases h
  · intro n es s s' m hn henter hrun hm _ _
    obtain ⟨hparts, hchildren⟩ := parts_withChildren hrun.cleared
    rw [← hm] at hparts hchildren
    obtain ⟨bs, hbs, hbinds, hsame⟩ := hrun.binds
    have hes := forall₂_mem hrun.cleared
    have hself : bs = [] → m = n := fun hnil => by
      rw [hm, hsame hnil, withChildren_children]
    have hclear : ∀ c ∈ m.children, c.Clear filters ∧ c.Everywhere (Cleared filters) := by
      intro c hc
      obtain ⟨_, _, hc⟩ := hes c (hchildren ▸ hc)
      exact hc
    have hcleared : m.Everywhere (Cleared filters) := by
      refine everywhere_iff.2 ⟨fun e he => ?_, fun c hc => (hclear c hc).2⟩
      exact (hclear e (mem_children_of_mem_slots he)).1
    have hnone : ∀ p name, Cleared filters (symbol p name) := fun _ _ _ he => by simp [slots] at he
    rw [collector_leave]
    split
    · refine ⟨clear_iff.2 ⟨rfl, fun _ c hc => by simp [children, fields] at hc⟩,
        everywhere_symbol (hnone _ _),
        bs ++ [bind m.position m (symbol m.position (callPlaceholder s'.next))], ?_, ?_,
        fun hnil => by simp at hnil⟩
      · change s'.binds ++ _ = _
        rw [hbs, List.append_assoc]
      · refine List.forall_mem_append.2 ⟨hbinds, List.forall_mem_singleton.2 ?_⟩
        refine everywhere_iff.2 ⟨fun e he => by simp [slots] at he, ?_⟩
        simpa [children, fields, Field.nodes] using ⟨hcleared, everywhere_symbol (hnone _ _)⟩
    · rename_i hasync
      exact ⟨clear_iff.2 ⟨Bool.eq_false_of_not_eq_true hasync, fun _ c hc => (hclear c hc).1⟩, hcleared,
        bs, hbs, hbinds, hself⟩

/-- The calls that may suspend are lifted from everything. -/
theorem lifting_cleared (filters : List String) (n : Node) (next : Nat) :
    (rewrite (lifting filters) n next).1.result.Everywhere (Cleared filters) := by
  refine (rewrite_related (R := fun _ n' => n'.Everywhere (Cleared filters)) (P := fun _ => True)
    (I := fun _ : Nat => True) (lifting filters) (fun _ _ _ _ => trivial) (fun _ _ h => by cases h)
    (fun _ _ h => by cases h) (fun n n' next _ _ _ hparts => ⟨?_, trivial⟩) trivial trivial).1
  have hchildren : ∀ c ∈ n'.children, c.Everywhere (Cleared filters) := fun c hc => by
    obtain ⟨_, _, hc⟩ := hparts.mem c hc
    exact hc
  change ((lift? filters n' next).1.getD n').Everywhere _
  rw [lift?_slots]
  have hrun : Run (Collected filters) ⟨next, []⟩ n'.slots _ _ :=
    mapAll_run (f := rewrite (collector filters))
      (fun e he s => collector_collected (hchildren e (mem_children_of_mem_slots he)) s) ⟨next, []⟩
  dsimp only
  generalize (mapAll (rewrite (collector filters)) n'.slots ⟨next, []⟩).1.result = es,
    (mapAll (rewrite (collector filters)) n'.slots ⟨next, []⟩).2 = calls at hrun
  obtain ⟨bs, hbs, hbinds, hsame⟩ := hrun.binds
  rw [List.nil_append] at hbs
  have hes := forall₂_mem hrun.cleared
  rw [hbs]
  -- without calls the node is left alone, and with calls it is the last member of a list with their binds
  split
  · rename_i hnil
    refine everywhere_iff.2 ⟨fun e he => ?_, hchildren⟩
    obtain ⟨_, _, hclear, _⟩ := hes e (hsame (List.isEmpty_iff.1 hnil) ▸ he)
    exact hclear
  · have hlifted : (n'.withSlots es).Everywhere (Cleared filters) := by
      refine everywhere_iff.2 ⟨fun e he => ?_, fun c hc => ?_⟩
      · rw [slots_withSlots hrun.length_eq] at he
        obtain ⟨_, _, hclear, _⟩ := hes e he
        exact hclear
      · rcases mem_children_withSlots hc with hc | hc
        · obtain ⟨_, _, _, hc⟩ := hes c hc
          exact hc
        · exact hchildren c hc
    refine everywhere_iff.2 ⟨fun e he => by simp [sequence, slots] at he, ?_⟩
    simpa [sequence, children, fields, Field.nodes, or_imp, forall_and] using ⟨hbinds, hlifted⟩

/-! ### What stays when more is done -/

/-- No calls that may suspend come into an expression. -/
theorem Grown.clear (h : Grown n n') (hn : n.Clear filters) : n'.Clear filters := by
  refine h.induction (P := fun n n' => n.Clear filters → n'.Clear filters) (fun n n' h hn => ?_) hn
  obtain ⟨hasync, hchildren⟩ := clear_iff.1 hn
  refine clear_iff.2 ⟨(h.mayCallAsync filters).trans hasync, fun hapart c' hc' => ?_⟩
  rw [h.isLiftedApart] at hapart
  have hblock : n.isBlock = false := by
    cases n with
    | block => cases hapart
    | _ => rfl
  rcases h.children hblock with hsame | hnone
  · obtain ⟨c, hc, -, hclear⟩ := forall₂_mem hsame c' hc'
    exact hclear (hchildren hapart c hc)
  · simp [hnone] at hc'

/-- No calls of the overridden block come into a body. -/
theorem Grown.superFree (h : Grown n n') (hn : n.SuperFree) : n'.SuperFree := by
  refine h.induction (P := fun n n' => n.SuperFree → n'.SuperFree) (fun n n' h hn => ?_) hn
  obtain ⟨hcall, hchildren⟩ := superFree_iff.1 hn
  have hgrown : GrowsAs Grown n n' := h.mono fun _ _ hc => hc.1
  refine superFree_iff.2 ⟨?_, fun hblock c' hc' => ?_⟩
  · exact Bool.eq_false_of_not_eq_true fun hcall' => by
      rw [hgrown.isSuperCall (fun _ _ hc => hc.cases) hcall'] at hcall
      cases hcall
  · rw [h.isBlock] at hblock
    rcases h.children hblock with hsame | hnone
    · obtain ⟨c, hc, -, hfree⟩ := forall₂_mem hsame c' hc'
      exact hfree (hchildren hblock c hc)
    · simp [hnone] at hc'

theorem SuperFree.statements (h : n.SuperFree) : ∀ m ∈ n.statements, m.SuperFree := by
  intro m hm
  rcases mem_statements hm with rfl | ⟨_, hblock, hc⟩
  · exact h
  · exact (superFree_iff.1 h).2 hblock m hc

/-- A body that begins with the overridden block does not call it if the rest does not. -/
theorem superFree_overridden {p q r : Position} {name target : String} {ms : List Node}
    (h : ∀ m ∈ ms, m.SuperFree) :
    (sequence p (overridden q name (symbol r target) :: ms)).SuperFree := by
  have hsymbol : (symbol r target).SuperFree :=
    superFree_iff.2 ⟨rfl, fun _ c hc => by simp [children, fields] at hc⟩
  have hoverridden : (overridden q name (symbol r target)).SuperFree :=
    superFree_iff.2 ⟨rfl, fun _ => List.forall_mem_singleton.2 hsymbol⟩
  refine superFree_iff.2 ⟨rfl, fun _ => ?_⟩
  simpa [sequence, children, fields, Field.nodes] using ⟨hoverridden, h⟩

theorem freed_of_isBlock (h : n.isBlock = false) : n.Freed := by
  rintro p name body rfl
  cases h

theorem cleared_of_slots (h : n.slots = []) : n.Cleared filters := fun e he => by simp [h] at he

/-- What holds everywhere in the statements of a body holds everywhere in a body that begins with the
overridden block, if it has to do with slots and blocks only. -/
theorem everywhere_overridden {Q : Node → Prop} {p q r : Position} {name target : String}
    {ms : List Node} (hQ : ∀ m : Node, m.slots = [] → m.isBlock = false → Q m)
    (h : ∀ m ∈ ms, m.Everywhere Q) :
    (sequence p (overridden q name (symbol r target) :: ms)).Everywhere Q := by
  have hoverridden : (overridden q name (symbol r target)).Everywhere Q :=
    everywhere_iff.2 ⟨hQ _ rfl rfl, List.forall_mem_singleton.2 (everywhere_symbol (hQ _ rfl rfl))⟩
  refine everywhere_iff.2 ⟨hQ _ rfl rfl, ?_⟩
  simpa [sequence, children, fields, Field.nodes] using ⟨hoverridden, h⟩

/-- What has to do with slots and blocks only stays everywhere if each node keeps it. -/
theorem Grown.everywhere {Q : Node → Prop} (hQ : ∀ m : Node, m.slots = [] → m.isBlock = false → Q m)
    (hself : ∀ n n', GrowsAs Grown n n' → Q n → Q n') (h : Grown n n') (hn : n.Everywhere Q) :
    n'.Everywhere Q := by
  refine h.induction (P := fun n n' => n.Everywhere Q → n'.Everywhere Q) (fun n n' h hn => ?_) hn
  have hnode : Q n' := hself n n' (h.mono fun _ _ hc => hc.1) hn.self
  refine everywhere_iff.2 ⟨hnode, ?_⟩
  cases hblock : n.isBlock with
  | false =>
      rcases h.children hblock with hsame | hnone
      · intro c' hc'
        obtain ⟨c, hc, -, hkeep⟩ := forall₂_mem hsame c' hc'
        exact hkeep (hn.child hc)
      · simp [hnone]
  | true =>
      obtain ⟨p, name, body, rfl⟩ := exists_of_isBlock hblock
      have hbody : body.Everywhere Q := hn.child (by simp [children, fields, Field.nodes])
      rcases h.of_block with ⟨p', body', rfl, -, hkeep⟩ | ⟨p', q, r, r', k, ms, rfl, hms⟩
      · exact List.forall_mem_singleton.2 (hkeep hbody)
      · refine List.forall_mem_singleton.2 (everywhere_overridden hQ fun m' hm' => ?_)
        obtain ⟨m, hm, -, hkeep⟩ := forall₂_mem hms m' hm'
        exact hkeep (everywhere_statements hbody m hm)

/-- Calls that may suspend stay lifted. -/
theorem Grown.cleared (h : Grown n n') (hn : n.Everywhere (Cleared filters)) :
    n'.Everywhere (Cleared filters) := by
  refine h.everywhere (fun _ hm _ => cleared_of_slots hm) (fun n n' h hn e' he' => ?_) hn
  obtain ⟨e, he, hgrown⟩ := forall₂_mem h.slots e' he'
  exact hgrown.clear (hn e he)

/-- Calls of overridden blocks stay lifted. -/
theorem Grown.freed (h : Grown n n') (hn : n.Everywhere Freed) : n'.Everywhere Freed := by
  refine h.everywhere (fun _ _ => freed_of_isBlock) (fun n n' h hn => ?_) hn
  cases hblock : n.isBlock with
  | false => exact freed_of_isBlock (h.isBlock.trans hblock)
  | true =>
      obtain ⟨p, name, body, rfl⟩ := exists_of_isBlock hblock
      have hfree := hn p name body rfl
      rcases h.of_block with ⟨p', body', rfl, hgrown⟩ | ⟨p', q, r, r', k, ms, rfl, hms⟩
      · rintro _ _ _ ⟨⟩
        exact hgrown.superFree hfree
      · rintro _ _ _ ⟨⟩
        refine superFree_overridden fun m' hm' => ?_
        obtain ⟨m, hm, hgrown⟩ := forall₂_mem hms m' hm'
        exact hgrown.superFree (hfree.statements m hm)

/-! ### Calls of the overridden block -/

/-- No call of the overridden block is left in a body in which a placeholder replaced them. -/
theorem superCalls_freed {target : Node} (htarget : target.Everywhere Freed ∧ target.SuperFree)
    (hn : n.Everywhere Freed) :
    (rewrite (superCalls target) n ()).1.result.Everywhere Freed ∧
      (rewrite (superCalls target) n ()).1.result.SuperFree := by
  refine (rewrite_related (R := fun _ n' => n'.Everywhere Freed ∧ n'.SuperFree)
    (P := Everywhere Freed) (I := fun _ : Unit => True) (superCalls target) (fun _ _ h hc => h.child hc)
    ?_ ?_ ?_ hn trivial).1
  · intro n hn henter
    refine ⟨hn, superFree_of_isBlock ?_⟩
    rw [superCalls_enter] at henter
    split at henter
    · assumption
    · cases henter
  · intro n m h
    rw [superCalls_enter] at h
    split at h <;> cases h
  · intro n n' _ hn _ henter hparts
    have hblock : n'.isBlock = false := by
      rw [hparts.isBlock]
      rw [superCalls_enter] at henter
      split at henter
      · cases henter
      · exact Bool.eq_false_of_not_eq_true ‹_›
    have hchildren : ∀ c' ∈ n'.children, c'.Everywhere Freed ∧ c'.SuperFree := fun c' hc' => by
      obtain ⟨_, _, hc⟩ := hparts.mem c' hc'
      exact hc
    refine ⟨?_, trivial⟩
    change ((if n'.isSuperCall then some target else none).getD n').Everywhere Freed ∧
      ((if n'.isSuperCall then some target else none).getD n').SuperFree
    split
    · exact htarget
    · rename_i hcall
      exact ⟨everywhere_iff.2 ⟨freed_of_isBlock hblock, fun c hc => (hchildren c hc).1⟩,
        superFree_iff.2 ⟨Bool.eq_false_of_not_eq_true hcall, fun _ c hc => (hchildren c hc).2⟩⟩

/-- The calls of overridden blocks are lifted from everything. -/
theorem superLifting_freed (n : Node) (next : Nat) :
    (rewrite superLifting n next).1.result.Everywhere Freed := by
  refine (rewrite_related (R := fun _ n' => n'.Everywhere Freed) (P := fun _ => True)
    (I := fun _ : Nat => True) superLifting (fun _ _ _ _ => trivial) (fun _ _ h => by cases h)
    (fun _ _ h => by cases h) (fun n n' next _ _ _ hparts => ⟨?_, trivial⟩) trivial trivial).1
  have hchildren : ∀ c ∈ n'.children, c.Everywhere Freed := fun c hc => by
    obtain ⟨_, _, hc⟩ := hparts.mem c hc
    exact hc
  change ((liftSuper? n' next).1.getD n').Everywhere Freed
  -- only from a block are calls lifted, and then its body begins with what they come to
  cases hblock : n'.isBlock with
  | false =>
      rw [liftSuper?_eq_none hblock]
      exact everywhere_iff.2 ⟨freed_of_isBlock hblock, hchildren⟩
  | true =>
      obtain ⟨p, name, body, rfl⟩ := exists_of_isBlock hblock
      have hbody : body.Everywhere Freed := hchildren body (by simp [children, fields, Field.nodes])
      have hsymbol : ∀ k, (symbol p (superPlaceholder k)).Everywhere Freed ∧
          (symbol p (superPlaceholder k)).SuperFree := fun _ =>
        ⟨everywhere_symbol (freed_of_isBlock rfl),
          superFree_iff.2 ⟨rfl, fun _ c hc => by simp [children, fields] at hc⟩⟩
      obtain ⟨hfreed, hfree⟩ := superCalls_freed (hsymbol next) hbody
      rw [liftSuper?_eq]
      dsimp only
      split
      · have hstatements := everywhere_statements hfreed
        refine everywhere_iff.2 ⟨?_, List.forall_mem_singleton.2
          (everywhere_overridden (fun _ _ => freed_of_isBlock) hstatements)⟩
        rintro _ _ _ ⟨⟩
        exact superFree_overridden hfree.statements
      · rename_i hchanged
        rw [rewrite_result_eq _ (Bool.eq_false_of_not_eq_true hchanged)] at hfree
        refine everywhere_iff.2 ⟨?_, hchildren⟩
        rintro _ _ _ ⟨⟩
        exact hfree

/-! ### Statements that may suspend -/

/-- Marking a node changes the mark only, and only if there is reason to. -/
theorem marked_promote? (n : Node) :
    (n.promote?.getD n).children = n.children ∧ (n.promote?.getD n).Marked := by
  have hbelow : ∀ {m : Node}, m.anyBelow maySuspend isBlock ≠ true →
      ∀ c ∈ m.children, ∀ k ∈ c.walk isBlock, k.maySuspend = false := by
    intro m h c hc k hk
    refine Bool.eq_false_of_not_eq_true fun hsuspend => h ?_
    simp only [anyBelow, List.any_eq_true]
    exact ⟨c, hc, k, hk, hsuspend⟩
  unfold promote?
  split
  · split
    · exact ⟨rfl, fun h => by cases h⟩
    · exact ⟨rfl, fun _ => hbelow ‹_›⟩
  · split
    · exact ⟨rfl, fun h => by cases h⟩
    · exact ⟨rfl, fun _ => hbelow ‹_›⟩
  · refine ⟨rfl, fun h => ?_⟩
    rename_i hbranch hloop
    cases n with
    | branch p suspends =>
        cases suspends with
        | false => exact absurd rfl (hbranch _ _ _ _)
        | true => cases h
    | loop p mode =>
        cases mode with
        | plain => exact absurd rfl (hloop _ _ _ _ _)
        | each | all => cases h
    | _ => cases h

/-- Everything that may wait is marked. -/
theorem promotion_marked (n : Node) : (rewrite promotion n ()).1.result.Everywhere Marked := by
  refine (rewrite_related (R := fun _ n' => n'.Everywhere Marked) (P := fun _ => True)
    (I := fun _ : Unit => True) promotion (fun _ _ _ _ => trivial) (fun _ _ h => by cases h)
    (fun _ _ h => by cases h) (fun n n' _ _ _ _ hparts => ⟨?_, trivial⟩) trivial trivial).1
  change (n'.promote?.getD n').Everywhere Marked
  obtain ⟨hchildren, hmarked⟩ := marked_promote? n'
  refine everywhere_iff.2 ⟨hmarked, fun c hc => ?_⟩
  obtain ⟨_, _, hc⟩ := hparts.mem c (hchildren ▸ hc)
  exact hc

/-! ### Trees that are left alone -/

/-- A tree is left alone by a rewriting that replaces no node on its way, and stops where it should. -/
theorem untouched_of_walk {σ : Type} {r : Rewriter σ} (stop : Node → Bool)
    (henter : ∀ m, r.enter m = if stop m then .keep else .descend)
    (h : ∀ m ∈ n.walk stop, stop m = false → r.leave m = pure none) : Untouched r n := by
  induction n using childInduction with
  | step n ih =>
      unfold Untouched
      cases hstop : stop n with
      | true =>
          funext s
          rw [rewrite_keep (by rw [henter, hstop]; rfl)]
          rfl
      | false =>
          obtain ⟨hself, hchildren⟩ := forall_walk_iff.1 h
          rw [rewrite_eq_visit, mapChildren_unchanged fun c hc => ih c hc (hchildren hstop c hc)]
          funext s
          rw [visit_eq r (by rw [henter, hstop]; rfl)]
          change ((r.leave n s).1.elim _ _, (r.leave n s).2) = _
          rw [hself hstop]
          rfl

/-- No calls are taken out of an expression without any. -/
theorem Clear.untouched (h : n.Clear filters) : Untouched (collector filters) n := by
  refine untouched_of_walk isLiftedApart (fun _ => rfl) fun m hm _ => ?_
  funext s
  rw [collector_leave, h m hm]
  rfl

theorem SuperFree.untouched (h : n.SuperFree) (target : Node) : Untouched (superCalls target) n := by
  refine untouched_of_walk isBlock (superCalls_enter target) fun m hm _ => ?_
  dsimp only [superCalls]
  rw [h m hm]
  rfl

theorem Cleared.lift?_eq (h : n.Cleared filters) : lift? filters n = pure none := by
  funext next
  rw [lift?_slots, mapAll_unchanged fun e he => (h e he).untouched]
  rfl

theorem Freed.liftSuper?_eq (h : n.Freed) : liftSuper? n = pure none := by
  cases hblock : n.isBlock with
  | false => exact liftSuper?_eq_none hblock
  | true =>
      obtain ⟨p, name, body, rfl⟩ := exists_of_isBlock hblock
      funext next
      rw [Stencil.Node.liftSuper?_eq]
      dsimp only
      rw [show rewrite _ body = _ from (h p name body rfl).untouched _]
      rfl

theorem Marked.promote?_eq (h : n.Marked) : n.promote? = none := by
  have hbelow : n.isUnmarked = true → ¬n.anyBelow maySuspend isBlock = true := by
    intro hn hany
    simp only [anyBelow, List.any_eq_true] at hany
    obtain ⟨c, hc, k, hk, hsuspend⟩ := hany
    rw [h hn c hc k hk] at hsuspend
    cases hsuspend
  unfold promote?
  split
  · rw [if_neg (hbelow rfl)]
  · rw [if_neg (hbelow rfl)]
  · rfl

/-- A tree with nothing left to do is left alone. -/
theorem IsNormal.unchanged (h : n.IsNormal filters) : prepared filters n = .unchanged n := by
  have hlifting : Untouched (lifting filters) n :=
    untouched_of_everywhere (h.mono fun m hm => .inr ⟨rfl, hm.cleared.lift?_eq⟩)
  have hsuper : Untouched superLifting n :=
    untouched_of_everywhere (h.mono fun m hm => .inr ⟨rfl, hm.freed.liftSuper?_eq⟩)
  have hmarks : Untouched promotion n :=
    untouched_of_everywhere (h.mono fun m hm => .inr ⟨rfl, by
      dsimp only [promotion]
      rw [hm.marked.promote?_eq]⟩)
  have hfirst : (rewrite (lifting filters) n).run 0 = (.unchanged n, 0) := by
    rw [show rewrite (lifting filters) n = _ from hlifting]
    rfl
  have hsecond : (rewrite superLifting n).run 0 = (.unchanged n, 0) := by
    rw [show rewrite superLifting n = _ from hsuper]
    rfl
  have hthird : (rewrite promotion n).run () = (.unchanged n, ()) := by
    rw [show rewrite promotion n = _ from hmarks]
    rfl
  unfold prepared
  rw [hfirst]
  dsimp only [Rewritten.unchanged] at hsecond hthird ⊢
  rw [hsecond]
  dsimp only
  rw [hthird]
  rfl

/-! ### All three -/

/-- A tree that was prepared has nothing left to do. -/
theorem prepared_settled (filters : List String) (root : Node) :
    (prepared filters root).result.IsNormal filters := by
  have hlifted := lifting_cleared filters root 0
  have hgrown := superLifting_grown (rewrite (lifting filters) root 0).1.result 0
  have hfreed := superLifting_freed (rewrite (lifting filters) root 0).1.result 0
  have hremarked := promotion_remarked
    (rewrite superLifting (rewrite (lifting filters) root 0).1.result 0).1.result
  have hmarked := promotion_marked
    (rewrite superLifting (rewrite (lifting filters) root 0).1.result 0).1.result
  intro m hm
  exact ⟨hremarked.grown.cleared (hgrown.cleared hlifted) m hm, hremarked.grown.freed hfreed m hm,
    hmarked m hm⟩

/-- **Whatever is prepared has nothing left to do**: no call that may suspend is left in the expressions
of a statement, except below what calls are lifted from on its own, the overridden block is not called in
the body of a block, and all that holds something that may wait is marked.  Preparing such a tree again
leaves it alone. -/
theorem prepared_isNormal (filters : List String) (root : Node) :
    (prepared filters root).result.IsNormal filters ∧
      prepared filters (prepared filters root).result =
        .unchanged (prepared filters root).result :=
  ⟨prepared_settled filters root, (prepared_settled filters root).unchanged⟩

end Stencil.Node
