/-
**Preparing a tree loses nothing.**

A tree that was read is rewritten three times before it is rendered.  Each call that is taken out of an
expression is bound exactly once and used exactly once, after its bind; the binds before a statement make
the calls of the statement in the order in which the statement makes them; and when the placeholders are
replaced by what they stand for and what was added is left out, the tree that was read is there again.

Main definitions:

* `Stencil.Node.Filled` — what is known of a tree after its calls were lifted;
* `Stencil.Node.Conserved` — a tree from which nothing was lost, in which nothing is there twice and
  nothing was put out of order.

Main results:

* `Stencil.Node.lifting_filled` — the first rewriting;
* `Stencil.Node.prepared_conserved` — **all three**.
-/

import Mathlib.Data.List.Nodup
import Stencil.Proofs.Lifting.Naming
import Stencil.Proofs.Lifting.Statements

set_option autoImplicit false

namespace Stencil.Node

variable {filters : List String} {root t n n' m : Node}

/-! ### Where nodes stand -/

/-- What stands below a node is a part of some node there. -/
theorem exists_parent (h : m ∈ n.walk fun _ => false) (hne : m ≠ n) :
    ∃ k ∈ n.walk fun _ => false, m ∈ k.children := by
  induction n using childInduction with
  | step n ih =>
      obtain rfl | ⟨-, c, hc, hm⟩ := mem_walk_iff.1 h
      · exact absurd rfl hne
      · by_cases hmc : m = c
        · exact ⟨n, mem_walk_self _ _, hmc ▸ hc⟩
        · obtain ⟨k, hk, hmem⟩ := ih c hc hm hmc
          exact ⟨k, mem_walk_of_mem_children rfl hc hk, hmem⟩

theorem sum_map_eq_zero {α : Type} {f : α → Nat} {as : List α} (h : ∀ a ∈ as, f a = 0) :
    (as.map f).sum = 0 := by
  induction as with
  | nil => rfl
  | cons a as ih =>
      obtain ⟨ha, has⟩ := List.forall_mem_cons.1 h
      rw [List.map_cons, List.sum_cons, ha, ih has]

theorem total_eq_zero {w : Node → Nat} (h : ∀ m ∈ n.walk fun _ => false, w m = 0) : n.total w = 0 :=
  sum_map_eq_zero h

/-- Nothing was put into a tree that was read. -/
theorem Plain.isPlaced (h : n.Parsed) : n.isPlaced = false := by
  have hchildren : ∀ c ∈ n.children, c.isAdded = false := fun c hc => (h.child hc).self.1.isAdded
  rw [Node.isPlaced, h.self.1.isAdded, isInserted_of_children hchildren]
  rfl

/-! ### Lifting calls -/

/-- Some numbered binds bind a name once at most, and placeholders only. -/
theorem Numbered.sum_binding {i : Nat} {bs : List Node} (h : Numbered i bs) (name : String) :
    (bs.map (added (binding name))).sum ≤ 1 ∧
      ((bs.map (added (binding name))).sum ≠ 0 → ∃ j, i ≤ j ∧ name = callPlaceholder j) := by
  induction h with
  | nil => exact ⟨Nat.zero_le _, fun h => absurd rfl h⟩
  | @cons i p a q bs ha _ ih =>
      have hhead : added (binding name) (bind p a (symbol q (callPlaceholder i))) =
          if callPlaceholder i = name then 1 else 0 := by
        simp [added, binding, boundName?]
      rw [List.map_cons, List.sum_cons, hhead]
      by_cases hname : callPlaceholder i = name
      · have hrest : (bs.map (added (binding name))).sum = 0 := by
          by_contra hne
          obtain ⟨j, hij, hj⟩ := ih.2 hne
          have := callPlaceholder_injective (hname.trans hj)
          omega
        rw [if_pos hname, hrest]
        exact ⟨le_rfl, fun _ => ⟨i, le_rfl, hname.symm⟩⟩
      · rw [if_neg hname, Nat.zero_add]
        exact ⟨ih.1, fun hne => by
          obtain ⟨j, hij, hj⟩ := ih.2 hne
          exact ⟨j, (Nat.le_succ i).trans hij, hj⟩⟩

open Classical in
/-- A bind or a list with binds that stands in a tree that was read was put in. -/
theorem Inserts.mem {i j : Nat} {Ls : List Node} (h : Inserts filters root i [n] [n'] Ls j)
    (hn : n.Parsed) (hm : m ∈ n'.walk fun _ => false) (hplaced : m.isPlaced = true) :
    m ∈ Ls ∨ m ∈ Ls.flatMap bindsOf := by
  by_contra hnone
  rw [not_or] at hnone
  have htotal := h.total _ (steady_placed hplaced)
  have hbefore : n.total (fun k => if k = m then 1 else 0) = 0 := total_eq_zero fun k hk => by
    rw [if_neg]
    rintro rfl
    rw [Plain.isPlaced (hn.below hk)] at hplaced
    cases hplaced
  have hlists : (Ls.map fun k => if k = m then 1 else 0).sum = 0 := sum_map_eq_zero fun L hL => by
    rw [if_neg]
    rintro rfl
    exact hnone.1 hL
  have hbinds : ((Ls.flatMap bindsOf).map (added fun k => if k = m then 1 else 0)).sum = 0 :=
    sum_map_eq_zero fun b hb => by
      obtain ⟨p, a, q, k, rfl⟩ := h.numbered.isBind b hb
      have hself : bind p a (symbol q (callPlaceholder k)) ≠ m := fun hbm => hnone.2 (hbm ▸ hb)
      have htarget : symbol q (callPlaceholder k) ≠ m := by
        rintro rfl
        cases hplaced
      simp [added, hself, htarget]
  rw [List.map_singleton, List.map_singleton, List.sum_singleton, List.sum_singleton, hbefore, hlists,
    hbinds] at htotal
  exact (mem_walk_iff_total m n').1 hm htotal

/-- A tree that was read, after its calls were lifted. -/
structure Filled (filters : List String) (root t : Node) : Prop where
  became : Became filters root t
  /-- What was added are binds. -/
  binds : ∀ m ∈ t.walk fun _ => false, m.isAdded = true → m.IsBind
  /-- A placeholder stands in two places, where it is bound and where it is used. -/
  twice : ∀ j, t.uses (callPlaceholder j) ≠ 0 → t.uses (callPlaceholder j) = 2 ∧
    t.total (binding (callPlaceholder j)) ≠ 0
  once : ∀ name, t.total (binding name) ≤ 1 ∧
    (t.total (binding name) ≠ 0 → ∃ j, name = callPlaceholder j)
  lists : ∀ L ∈ t.walk fun _ => false, L.isInserted = true → ∃ i bs m, StandsFor filters root i bs m L

/-- Each number of some binds is bound. -/
theorem Numbered.sum_binding_ne {i j : Nat} {bs : List Node} (h : Numbered i bs)
    (hj : i ≤ j ∧ j < i + bs.length) :
    (bs.map (added (binding (callPlaceholder j)))).sum ≠ 0 := by
  induction h with
  | nil => simp at hj; omega
  | @cons i p a q bs ha _ ih =>
      rw [List.map_cons, List.sum_cons]
      rw [List.length_cons] at hj
      rcases hj.1.eq_or_lt with rfl | hlt
      · simp [added, binding, boundName?]
      · have := ih (by omega)
        omega

/-- **The first rewriting** puts in lists with binds, and nothing else. -/
theorem lifting_filled (filters : List String) (hn : root.Parsed) :
    Filled filters root (rewrite (lifting filters) root 0).1.result := by
  obtain ⟨hbecame, Ls, hLs⟩ := lifting_lifts filters hn
  generalize (rewrite (lifting filters) root 0).1.result = t at hbecame hLs
  have htotal : ∀ w, Steady w → (∀ m ∈ root.walk fun _ => false, w m = 0) → (∀ L ∈ Ls, w L = 0) →
      t.total w = ((Ls.flatMap bindsOf).map (added w)).sum := by
    intro w hw hroot hlists
    have h := hLs.total w hw
    rwa [List.map_singleton, List.map_singleton, List.sum_singleton, List.sum_singleton,
      total_eq_zero hroot, sum_map_eq_zero hlists, Nat.zero_add] at h
  have hshape : ∀ L ∈ Ls, ∃ p ns, L = sequence p ns := fun L hL => by
    obtain ⟨i, m, hstands⟩ := hLs.lists L hL
    obtain ⟨p, hp⟩ := hstands.shape
    exact ⟨p, _, hp⟩
  have hnames : ∀ name, t.total (binding name) =
      ((Ls.flatMap bindsOf).map (added (binding name))).sum := by
    intro name
    refine htotal _ (steady_boundNames name) (fun m hm => ?_) fun L hL => ?_
    · simp [binding, boundName?_of_isAdded (hn.below hm).self.1.isAdded]
    · obtain ⟨p, ns, rfl⟩ := hshape L hL
      rfl
  have huses : ∀ j, t.uses (callPlaceholder j) = if j < (Ls.flatMap bindsOf).length then 2 else 0 := by
    intro j
    rw [uses_eq_total, htotal _ (steady_uses _) (fun m hm => ?_) fun L hL => ?_, hLs.numbered.sum_added]
    · simp
    · rw [if_neg]
      intro hname
      cases m with
      | symbol p x =>
          cases hname
          exact not_isWritable (toList_callPlaceholder j) (hn.below hm).self.1
      | _ => cases hname
    · obtain ⟨p, ns, rfl⟩ := hshape L hL
      rfl
  refine ⟨hbecame, fun m hm hadded => ?_, fun j hj => ?_, fun name => ?_, fun L hL hinserted => ?_⟩
  · rcases hLs.mem hn hm (by simp [isPlaced, hadded]) with hL | hb
    · obtain ⟨p, ns, rfl⟩ := hshape m hL
      cases hadded
    · exact hLs.numbered.isBind m hb
  · rw [huses] at hj ⊢
    split at hj
    · rename_i hlt
      rw [if_pos hlt, hnames]
      exact ⟨rfl, hLs.numbered.sum_binding_ne ⟨Nat.zero_le j, by simpa using hlt⟩⟩
    · exact absurd rfl hj
  · obtain ⟨hone, hname⟩ := hLs.numbered.sum_binding name
    rw [hnames]
    exact ⟨hone, fun hne => (hname hne).imp fun j h => h.2⟩
  · rcases hLs.mem hn hL (by simp [isPlaced, hinserted]) with hL | hb
    · obtain ⟨i, m, hstands⟩ := hLs.lists L hL
      exact ⟨i, _, m, hstands⟩
    · obtain ⟨p, a, q, k, rfl⟩ := hLs.numbered.isBind L hb
      cases hinserted

/-! ### Lists after more was done -/

/-- A list with binds had them before more was done. -/
theorem Grown.isInserted (h : Grown n n') (hn' : n'.isInserted = true) : n.isInserted = true := by
  cases h.cases with
  | same h =>
      cases h with
      | alike h =>
          cases h with
          | @group kind p p' ns ns' _ hns =>
              cases hns with
              | nil => cases kind <;> cases hn'
              | @cons c c' _ _ hc _ =>
                  cases kind with
                  | sequence =>
                      cases c' with
                      | bind =>
                          cases hc.cases with
                          | same hc =>
                              cases hc with
                              | alike hc =>
                                  cases hc
                                  rfl
                      | _ => cases hn'
                  | _ => cases hn'
          | _ => cases hn'
      | branch | loop => cases hn'
  | call | block => cases hn'

/-- Where a list with binds stands after more was done, one stood before. -/
theorem Grown.exists_inserted (h : Grown n n') (hn : n.Everywhere Orderly) {L' : Node}
    (hL' : L' ∈ n'.walk fun _ => false) (hinserted : L'.isInserted = true) :
    ∃ L ∈ n.walk fun _ => false, Grown L L' ∧ L.isInserted = true := by
  rcases h.mem_walk hn L' hL' with ⟨L, hL, hgrown⟩ | hnew
  · exact ⟨L, hL, hgrown, hgrown.isInserted hinserted⟩
  · cases hnew <;> cases hinserted

/-- A bind stands in a list with binds. -/
theorem Grown.exists_list (h : Grown n n') (hn : n.Everywhere Orderly) (hself : n.isAdded = false)
    {p : Position} {a b : Node} (hb : Node.bind p a b ∈ n'.walk fun _ => false) :
    ∃ L ∈ n.walk fun _ => false, ∃ L' ∈ n'.walk fun _ => false,
      Grown L L' ∧ L.isInserted = true ∧ Node.bind p a b ∈ L'.children := by
  have hne : Node.bind p a b ≠ n' := by
    rintro rfl
    have hadded := h.isAdded
    rw [hself] at hadded
    cases hadded
  obtain ⟨k', hk', hmem⟩ := exists_parent hb hne
  rcases h.mem_walk hn k' hk' with ⟨k, hk, hgrown⟩ | hnew
  · refine ⟨k, hk, k', hk', hgrown, ?_, hmem⟩
    by_contra hplain
    -- a bind would stand in what is no list with binds
    have hchildren := (hn k hk).plain (Bool.eq_false_of_not_eq_true hplain)
    have hcases := hgrown.cases
    cases hcases with
    | same hsame =>
        obtain ⟨c, hc, hcb⟩ := forall₂_mem hsame.children _ hmem
        have hadded := hcb.isAdded
        rw [hchildren c hc] at hadded
        cases hadded
    | call => simp [children, fields] at hmem
    | block => simp [children, fields, Field.nodes, sequence] at hmem
  · cases hnew with
    | overridden | placeholder => simp [children, fields, Field.nodes] at hmem
    | @body q r t name k ms hms =>
        have hmem : Node.bind p a b ∈ ms := by simpa [sequence, children, fields, Field.nodes] using hmem
        cases hms _ hmem

/-- Where binds are numbered, what comes before a bind has smaller numbers, and its call as well. -/
theorem Numbered.split {i : Nat} {before after : List Node} {b : Node}
    (h : Numbered i (before ++ b :: after)) :
    (∀ c ∈ before, c.Below (i + before.length)) ∧ ∃ p a q,
      b = bind p a (symbol q (callPlaceholder (i + before.length))) ∧ a.Below (i + before.length) := by
  induction before generalizing i with
  | nil =>
      cases h with
      | cons ha _ => exact ⟨by simp, _, _, _, rfl, ha⟩
  | cons c before ih =>
      cases h with
      | @cons _ p a q _ ha hrest =>
          obtain ⟨hbefore, hb⟩ := ih hrest
          rw [List.length_cons, Nat.add_comm before.length 1, ← Nat.add_assoc]
          refine ⟨List.forall_mem_cons.2 ⟨?_, hbefore⟩, hb⟩
          have hfirst : Numbered i [bind p a (symbol q (callPlaceholder i))] := .cons ha .nil
          exact (hfirst.isBelow _ (List.mem_singleton_self _)).mono (by simp)

/-- A placeholder that a list binds is used once after its bind, in the list or in the statement. -/
theorem StandsFor.used {i : Nat} {bs before after : List Node} {L b : Node}
    (h : StandsFor filters root i bs m L) (hbs : bs = before ++ b :: after) :
    ∃ p a q j, b = bind p a (symbol q (callPlaceholder j)) ∧
      ((after ++ [m]).map (uses (callPlaceholder j))).sum = 1 := by
  subst hbs
  obtain ⟨hbefore, p, a, q, rfl, ha⟩ := h.numbered.split
  refine ⟨p, a, q, _, rfl, ?_⟩
  have htwice := h.twice (i + before.length) (Nat.le_add_right _ _) (by simp)
  have hleft : (before.map (uses (callPlaceholder (i + before.length)))).sum = 0 :=
    sum_map_eq_zero fun c hc => (hbefore c hc).uses le_rfl
  have hself : (bind p a (symbol q (callPlaceholder (i + before.length)))).uses
      (callPlaceholder (i + before.length)) = 1 := by
    have hcall := ha.uses le_rfl
    rw [uses_eq_total] at hcall
    rw [uses_eq_total, total_bind, hcall, total_symbol]
    simp [asSymbol?]
  simp only [List.append_assoc, List.cons_append, List.map_append, List.map_cons, List.sum_append,
    List.sum_cons, hleft, hself] at htwice ⊢
  omega

/-- The calls of binds are the same after more was done. -/
theorem Agree.boundCalls {S : String → Prop} {known known' : List (String × Node)} {bs bs' : List Node}
    (h : List.Forall₂ Grown bs bs')
    (hbs : ∀ b ∈ bs, b.IsBind ∧ b.Everywhere Orderly ∧ b.IsRegular ∧ ∀ name, b.Mentions name → S name)
    (hk : IsKnown known) (hk' : IsKnown known') (hagree : Agree S known known') :
    List.Forall₂ (Remarked true) (Node.boundCalls known bs) (Node.boundCalls known' bs') := by
  induction h generalizing known known' with
  | nil => exact .nil
  | @cons b b' bs bs' hb _ ih =>
      obtain ⟨⟨hbind, horderly, hregular, hnames⟩, hrest⟩ := List.forall_mem_cons.1 hbs
      obtain ⟨p, a, q, j, rfl⟩ := hbind
      have hcalls := hb.restores horderly hregular hnames known known' hk hk' hagree
      obtain ⟨p', a', q', rfl, -⟩ := hb.bind
      exact .cons hcalls.of_bind (ih hrest (hk.cons j _) (hk'.cons j _) (hagree.cons hcalls.of_bind _))

/-! ### Prepared trees -/

/-- A tree from which nothing was lost when it was prepared, in which nothing is there twice and nothing
was put out of order. -/
structure Conserved (filters : List String) (root t : Node) : Prop where
  /-- Binds and overridden blocks bind names. -/
  targeted : t.Everywhere Targeted
  /-- They bind a different name each. -/
  distinct : t.boundNames.Nodup
  /-- A placeholder for a call is bound. -/
  bound : ∀ j, t.uses (callPlaceholder j) ≠ 0 →
    ∃ p a q, bind p a (symbol q (callPlaceholder j)) ∈ t.walk fun _ => false
  /-- What is bound is a placeholder for a call.  It stands in one more place, which is in the list that
  the bind stands in, after it. -/
  used : ∀ p a b, bind p a b ∈ (t.walk fun _ => false) → ∃ q j, b = symbol q (callPlaceholder j) ∧
    t.uses (callPlaceholder j) = 2 ∧
      ∃ r before after, sequence r (before ++ bind p a b :: after) ∈ (t.walk fun _ => false) ∧
        (after.map (uses (callPlaceholder j))).sum = 1
  /-- The binds of a list make the calls of the statement that the list was put in for. -/
  listed : ∀ L ∈ t.walk fun _ => false, L.isInserted = true →
    ∃ p bs m, L = sequence p (bs ++ [m]) ∧ (∀ b ∈ bs, b.IsBind) ∧ m.isAdded = false ∧
      ∃ n ∈ root.walk fun _ => false, Remarked true n (Node.restored [] L) ∧
        List.Forall₂ (Remarked true) (n.slots.flatMap (asyncCalls filters)) (boundCalls [] bs)
  /-- With calls in the place of their placeholders, and without what was added, the tree is the one that
  it was. -/
  restored : Remarked true root (Node.restored [] t)

/-- Where a name is bound, a bind or an overridden block binds it. -/
theorem exists_of_binding {name : String} (h : t.total (binding name) ≠ 0) :
    ∃ k ∈ t.walk fun _ => false, k.boundName? = some name := by
  by_contra hnone
  exact h (total_eq_zero fun k hk => if_neg fun hname => hnone ⟨k, hk, hname⟩)

theorem Remarked.targeted (h : Remarked true n n') (hn : n.Everywhere Targeted) :
    n'.Everywhere Targeted := by
  induction n using childInduction generalizing n' with
  | step n ih =>
      refine everywhere_iff.2 ⟨fun hadded => ?_, fun c' hc' => ?_⟩
      · rw [h.grown.isAdded] at hadded
        rw [h.boundName?]
        exact hn.self hadded
      · obtain ⟨c, hc, hcc'⟩ := forall₂_mem h.cases.children c' hc'
        exact ih c hc hcc' (hn.child hc)

theorem IsBind.targeted (h : n.IsBind) : n.Targeted := by
  obtain ⟨p, a, q, j, rfl⟩ := h
  exact fun _ => rfl

theorem uses_ne_zero {name : String} (h : n.Mentions name) : n.uses name ≠ 0 := by
  obtain ⟨p, hp⟩ := h
  have hmem : symbol p name ∈ n.findAll fun m => m.asSymbol? == some name :=
    List.mem_filter.2 ⟨hp, by simp [asSymbol?]⟩
  exact (List.length_pos_of_mem hmem).ne'

theorem forall₂_uses {ns ns' : List Node} (h : List.Forall₂ Grown ns ns')
    (hns : ∀ c ∈ ns, c.Everywhere Orderly ∧ c.IsRegular) (j : Nat) :
    (ns'.map (uses (callPlaceholder j))).sum = (ns.map (uses (callPlaceholder j))).sum := by
  induction h with
  | nil => rfl
  | cons hc _ ih =>
      obtain ⟨⟨horderly, hregular⟩, hrest⟩ := List.forall_mem_cons.1 hns
      rw [List.map_cons, List.map_cons, List.sum_cons, List.sum_cons, hc.uses horderly hregular,
        ih hrest]

/-- A list that was put in for a statement, before and after more was done. -/
structure Stands (filters : List String) (root L L' : Node) (i : Nat) (bs : List Node) (m : Node)
    (bs' : List Node) (m' : Node) : Prop where
  standsFor : StandsFor filters root i bs m L
  grown : Grown L L'
  shape : ∃ p, L' = sequence p (bs' ++ [m'])
  binds : List.Forall₂ Grown bs bs'
  statement : Grown m m'
  members : ∀ c ∈ bs ++ [m], c.Everywhere Orderly ∧ c.IsRegular
  orderly : L.Everywhere Orderly
  regular : L.IsRegular

/-- A list with binds was put in for a statement. -/
theorem Filled.exists_stands (h : Filled filters root t) {L L' : Node}
    (hL : L ∈ t.walk fun _ => false) (hgrown : Grown L L') (hinserted : L.isInserted = true) :
    ∃ i bs m bs' m', Stands filters root L L' i bs m bs' m' := by
  obtain ⟨i, bs, m, hstands⟩ := h.lists L hL hinserted
  have horderly := h.became.orderly.below hL
  have hregular := h.became.regular.below hL
  obtain ⟨p, rfl⟩ := hstands.shape
  obtain ⟨p', ns', rfl, hns⟩ := hgrown.cases.sequence
  obtain ⟨bs', ms', rfl, hbs, hms⟩ := forall₂_append_left hns
  obtain _ | ⟨hm, _ | _⟩ := hms
  refine ⟨i, bs, m, bs', _, hstands, hgrown, ⟨p', rfl⟩, hbs, hm, fun c hc => ?_, horderly, hregular⟩
  have hc : c ∈ (sequence p (bs ++ [m])).children := by
    simpa [sequence, children, fields, Field.nodes] using hc
  exact ⟨horderly.child hc, hregular.child hc⟩

section

variable {t₁ : Node} (h : Filled filters root t₁) (hgrown : Grown t₁ t)

include h hgrown

/-- What is bound is used once, after its bind. -/
theorem Filled.used {p : Position} {a b : Node} (hb : bind p a b ∈ t.walk fun _ => false) :
    ∃ q j, b = symbol q (callPlaceholder j) ∧ t.uses (callPlaceholder j) = 2 ∧
      ∃ r before after, sequence r (before ++ bind p a b :: after) ∈ (t.walk fun _ => false) ∧
        (after.map (Node.uses (callPlaceholder j))).sum = 1 := by
  -- the bind is in a list that was put there when calls were lifted, and is not the statement that the list
  -- ends with
  obtain ⟨L, hL, L', hL', hgrownL, hinserted, hmem⟩ :=
    hgrown.exists_list h.became.orderly h.became.isAdded hb
  obtain ⟨i, bs, m, bs', m', hstands⟩ := h.exists_stands hL hgrownL hinserted
  obtain ⟨r, rfl⟩ := hstands.shape
  have hmember : bind p a b ∈ bs' := by
    have hmem : bind p a b ∈ bs' ∨ bind p a b = m' := by
      simpa [sequence, children, fields, Field.nodes] using hmem
    refine hmem.resolve_right ?_
    rintro rfl
    have hadded := hstands.statement.isAdded
    rw [hstands.standsFor.isAdded] at hadded
    cases hadded
  -- what stands behind the bind now stood there before more was done
  obtain ⟨before', after', rfl⟩ := List.append_of_mem hmember
  obtain ⟨before, rest, rfl, hbefore, hrest⟩ := forall₂_append_left hstands.binds.flip
  cases hrest with
  | @cons _ c _ after hc hafter =>
      obtain ⟨p₀, a₀, q₀, j, rfl, hsum⟩ := hstands.standsFor.used rfl
      obtain ⟨p', a', q', hbind, -⟩ := Grown.bind hc
      cases hbind
      have hmentions : t.Mentions (callPlaceholder j) := ⟨q', mem_walk_trans hb
        (mem_walk_of_mem_children rfl (by simp [children, fields, Field.nodes]) (mem_walk_self _ _))⟩
      have huses := hgrown.uses h.became.orderly h.became.regular j
      have hne := uses_ne_zero hmentions
      rw [huses] at hne
      refine ⟨q', j, rfl, huses.trans (h.twice j hne).1, r, before', after' ++ [m'], ?_, ?_⟩
      · simpa using hL'
      · rw [forall₂_uses (List.rel_append hafter.flip (.cons hstands.statement .nil)) fun c hc =>
          hstands.members c ?_, hsum]
        simp only [List.mem_append, List.mem_cons] at hc ⊢
        tauto

/-- A placeholder for a call is bound. -/
theorem Filled.bound {j : Nat} (hcount : t.total (binding (callPlaceholder j)) ≠ 0) :
    ∃ p a q, bind p a (symbol q (callPlaceholder j)) ∈ t.walk fun _ => false := by
  obtain ⟨k, hk, hname⟩ := exists_of_binding hcount
  cases k with
  | bind p a b =>
      cases b with
      | symbol q name =>
          cases hname
          exact ⟨p, a, q, hk⟩
      | _ => cases hname
  | overridden p name b =>
      rcases hgrown.mem_walk h.became.orderly _ hk with ⟨k₀, hk₀, hgrownk⟩ | hnew
      · obtain ⟨_, _, _, _, rfl⟩ := h.binds k₀ hk₀ (hgrownk.isAdded.symm.trans rfl)
        obtain ⟨_, _, _, hbind, -⟩ := Grown.bind hgrownk
        cases hbind
      · cases hnew with
        | overridden =>
            exact absurd (Option.some.inj hname).symm (callPlaceholder_ne_superPlaceholder j _)
  | _ => cases hname

/-- The binds of a list make the calls of the statement that it was put in for. -/
theorem Filled.listed {L' : Node} (hL' : L' ∈ t.walk fun _ => false) (hinserted : L'.isInserted = true) :
    ∃ p bs m, L' = sequence p (bs ++ [m]) ∧ (∀ b ∈ bs, b.IsBind) ∧ m.isAdded = false ∧
      ∃ n ∈ root.walk fun _ => false, Remarked true n (restored [] L') ∧
        List.Forall₂ (Remarked true) (n.slots.flatMap (asyncCalls filters)) (boundCalls [] bs) := by
  obtain ⟨L, hL, hgrownL, hinserted⟩ := hgrown.exists_inserted h.became.orderly hL' hinserted
  obtain ⟨i, bs, m, bs', m', hstands⟩ := h.exists_stands hL hgrownL hinserted
  have hknown : IsKnown [] := by simp [IsKnown]
  have hagree : Agree (fun _ => True) [] [] := fun _ _ => .none
  obtain ⟨p', rfl⟩ := hstands.shape
  obtain ⟨n, hn, hrestored⟩ := hstands.standsFor.restored
  obtain ⟨hsame, hcalls⟩ := hrestored [] hknown
  have hbinds : ∀ b ∈ bs, b.IsBind ∧ b.Everywhere Orderly ∧ b.IsRegular ∧
      ∀ name, b.Mentions name → True := fun b hb =>
    ⟨hstands.standsFor.numbered.isBind b hb, (hstands.members b (List.mem_append_left _ hb)).1,
      (hstands.members b (List.mem_append_left _ hb)).2, fun _ _ => trivial⟩
  refine ⟨p', bs', m', rfl, fun b' hb' => ?_, ?_, n, hn, ?_, ?_⟩
  · obtain ⟨b, hb, hgrownb⟩ := forall₂_mem hstands.binds b' hb'
    obtain ⟨p, a, q, j, rfl⟩ := (hbinds b hb).1
    obtain ⟨p', a', q', rfl, -⟩ := Grown.bind hgrownb
    exact ⟨p', a', q', j, rfl⟩
  · exact hstands.statement.isAdded.trans hstands.standsFor.isAdded
  · exact hsame.trans (hgrownL.restores (S := fun _ => True) hstands.orderly hstands.regular
      (fun _ _ => trivial) [] [] hknown hknown hagree)
  · exact forall₂_trans (fun _ _ _ hc hc' => hc.trans hc') hcalls
      (hagree.boundCalls hstands.binds hbinds hknown hknown)

end

/-- The names that are bound after calls were lifted and overridden blocks as well are different. -/
theorem Filled.nodup (h : Filled filters root t) {j : Nat}
    (htotal : ∀ name, n.boundNames.count name = t.total (binding name) + between 0 j name) :
    n.boundNames.Nodup := by
  refine List.nodup_iff_count_le_one.2 fun name => ?_
  rw [htotal]
  obtain ⟨hone, hcall⟩ := h.once name
  unfold between
  split
  · rename_i hsuper
    obtain ⟨k, -, -, rfl⟩ := hsuper
    have hnone : t.total (binding (superPlaceholder k)) = 0 := by
      by_contra hne
      obtain ⟨i, hi⟩ := hcall hne
      exact callPlaceholder_ne_superPlaceholder i k hi.symm
    omega
  · omega

/-- **A tree that was read and prepared** lost nothing, has nothing twice, and nothing in it was put out
of order. -/
theorem prepared_conserved {config : Config} {source : String} (filters : List String)
    (h : Node.ofSource config [] source = .ok root) :
    Conserved filters root (prepared filters root).result := by
  have hparsed : root.Parsed := by
    have hread := Node.ofSource_parsed config source
    rw [h] at hread
    exact hread.1
  have hfilled := lifting_filled filters hparsed
  have hregular := hfilled.became.regular
  have hnamed := superLifting_names ⟨hregular, fun m hm hadded =>
    (hfilled.binds m hm hadded).targeted hadded⟩ 0
  have hgrown₂ := superLifting_grown (rewrite (lifting filters) root 0).1.result 0
  have hmarked := promotion_remarked
    (rewrite superLifting (rewrite (lifting filters) root 0).1.result 0).1.result
  have hgrown := hgrown₂.remarked hmarked
  change Conserved filters root (rewrite promotion
    (rewrite superLifting (rewrite (lifting filters) root 0).1.result 0).1.result ()).1.result
  -- of the three trees only what is known of them matters now: after calls were lifted, after those of
  -- overridden blocks were, and after marks were set
  generalize (rewrite (lifting filters) root 0).1.result = t₁ at *
  generalize (rewrite superLifting t₁ 0).1.result = t₂ at *
  generalize (rewrite promotion t₂ ()).1.result = t at *
  have hcount : ∀ name, t.boundNames.count name = t₁.total (binding name) + between 0 _ name :=
    fun name => by
      rw [hmarked.count_boundNames, count_boundNames]
      exact hnamed.total name
  refine ⟨hmarked.targeted hnamed.renames.targeted, hfilled.nodup hcount, fun j hj => ?_,
    fun p a b hb => hfilled.used hgrown hb, fun L hL => hfilled.listed hgrown hL, ?_⟩
  · refine hfilled.bound hgrown ?_
    rw [hgrown.uses hfilled.became.orderly hregular] at hj
    have hone := (hfilled.twice j hj).2
    have hcountj := hcount (callPlaceholder j)
    rw [count_boundNames] at hcountj
    change t.total (binding (callPlaceholder j)) = _ at hcountj
    omega
  · have hknown : IsKnown [] := by simp [IsKnown]
    exact (hfilled.became.restored [] hknown).trans (hgrown.restores (S := fun _ => True)
      hfilled.became.orderly hregular (fun _ _ => trivial) [] [] hknown hknown fun _ _ => .none)

/-- A block in which calls stand in calls, in a condition and next to the overridden block. -/
def nestedCalls : String :=
  "\x7b% block b %\x7d\x7b\x7b super() \x7d\x7d\x7b% if a | slow %\x7d" ++
    "\x7b\x7b (b | slow) | slow \x7d\x7d\x7b% endif %\x7d\x7b% endblock %\x7d"

/-- The placeholders of the block are bound where they should be, and it is conserved. -/
theorem prepared_conserved_nestedCalls :
    ∃ root, Node.ofSource .standard [] nestedCalls = .ok root ∧
      Conserved ["slow"] root (prepared ["slow"] root).result ∧
        (prepared ["slow"] root).result.boundNames = ["#s0", "#t2", "#t0", "#t1"] := by
  have hread : (Node.ofSource .standard [] nestedCalls).toOption.map
      (fun root => (prepared ["slow"] root).result.boundNames) = some ["#s0", "#t2", "#t0", "#t1"] := by
    decide +kernel
  cases h : Node.ofSource .standard [] nestedCalls with
  | ok root =>
      rw [h] at hread
      exact ⟨root, rfl, prepared_conserved ["slow"] h, Option.some.inj hread⟩
  | error e =>
      rw [h] at hread
      cases hread

end Stencil.Node
