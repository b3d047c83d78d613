/-
**The names that are bound for overridden blocks.**

Each block that calls for the block it overrides gets a placeholder of its own: the blocks are numbered in
the order in which they are left, inner blocks first.  That calls are replaced in a body binds nothing.

Main definitions:

* `Stencil.Node.Targeted` — a bind or an overridden block that binds a name;
* `Stencil.Node.between` — how often a name is a placeholder with a number in some range.

Main results:

* `Stencil.Node.superLifting_names` — **the names that are bound** after calls of overridden blocks were
  lifted.
-/

import Stencil.Proofs.Lifting.Occurrences

set_option autoImplicit false

namespace Stencil.Node

/-- What counts for the names that are bound. -/
def binding (name : String) (n : Node) : Nat := if n.boundName? = some name then 1 else 0

/-- A node that binds a name if it is a bind or an overridden block. -/
def Targeted (n : Node) : Prop := n.isAdded = true → n.boundName?.isSome = true

open Classical in
/-- How often a name is a placeholder for an overridden block with a number in some range. -/
noncomputable def between (i j : Nat) (name : String) : Nat :=
  if ∃ k, i ≤ k ∧ k < j ∧ name = superPlaceholder k then 1 else 0

variable {n n' : Node}

theorem between_self (i : Nat) (name : String) : between i i name = 0 := by
  rw [between, if_neg]
  rintro ⟨k, hik, hki, -⟩
  omega

theorem between_add {i j k : Nat} (hij : i ≤ j) (hjk : j ≤ k) (name : String) :
    between i j name + between j k name = between i k name := by
  unfold between
  split_ifs with hleft hright hall hall hright hall hall
  · obtain ⟨a, ha, haj, rfl⟩ := hleft
    obtain ⟨b, hb, hbk, hname⟩ := hright
    have := superPlaceholder_injective hname
    omega
  · obtain ⟨a, ha, haj, rfl⟩ := hleft
    obtain ⟨b, hb, hbk, hname⟩ := hright
    have := superPlaceholder_injective hname
    omega
  · rfl
  · obtain ⟨a, ha, haj, rfl⟩ := hleft
    exact absurd ⟨a, ha, by omega, rfl⟩ hall
  · rfl
  · obtain ⟨b, hb, hbk, rfl⟩ := hright
    exact absurd ⟨b, by omega, hbk, rfl⟩ hall
  · obtain ⟨a, ha, hak, rfl⟩ := hall
    rcases Nat.lt_or_ge a j with haj | haj
    · exact absurd ⟨a, ha, haj, rfl⟩ hleft
    · exact absurd ⟨a, haj, hak, rfl⟩ hright
  · rfl

theorem between_succ (i : Nat) (name : String) :
    between i (i + 1) name = if superPlaceholder i = name then 1 else 0 := by
  unfold between
  by_cases hname : superPlaceholder i = name
  · rw [if_pos ⟨i, le_rfl, Nat.lt_succ_self i, hname.symm⟩, if_pos hname]
  · rw [if_neg hname, if_neg]
    rintro ⟨k, hik, hki, rfl⟩
    obtain rfl : k = i := by omega
    exact hname rfl

/-! ### Replacing calls in a body -/

/-- A tree with the same names bound in it that takes the place of another. -/
structure Renames (n n' : Node) : Prop where
  replaces : Replaces n n'
  targeted : n'.Everywhere Targeted
  symbol : n.asSymbol?.isSome = true → n' = n

/-- A node binds the name that it bound if its parts are renamed. -/
theorem Parts.boundName? (h : Parts Renames n n') (hn : n.Targeted) : n'.boundName? = n.boundName? := by
  rw [Targeted, boundName?_eq] at hn
  rw [boundName?_eq, boundName?_eq]
  cases h with
  | bind ha hb => rw [hb.symbol (hn rfl)]
  | overridden hb => rw [hb.symbol (hn rfl)]
  | _ => rfl

/-- A node whose parts are renamed is renamed. -/
theorem Parts.renames (h : Parts Renames n n') (hn : n.IsRegular ∧ n.Everywhere Targeted) :
    Renames n n' where
  replaces := (h.mono fun _ _ _ hc => hc.replaces).replaces hn.1
  targeted := by
    refine everywhere_iff.2 ⟨fun hadded => ?_, fun c hc => ?_⟩
    · rw [h.boundName? hn.2.self]
      exact hn.2.self (h.isAdded ▸ hadded)
    · obtain ⟨_, _, hc⟩ := h.mem c hc
      exact hc.targeted
  symbol := fun hsymbol => by
    cases h with
    | symbol => rfl
    | _ => cases hsymbol

theorem total_binding_symbol (name : String) (p : Position) (x : String) :
    (symbol p x).total (binding name) = 0 := by
  rw [total_symbol]
  rfl

/-- Replacing the calls of an overridden block binds nothing. -/
theorem superCalls_names (hn : n.IsRegular ∧ n.Everywhere Targeted) (p : Position) (k : Nat) :
    Renames n (rewrite (superCalls (.symbol p (superPlaceholder k))) n ()).1.result ∧
      ∀ name, (rewrite (superCalls (.symbol p (superPlaceholder k))) n ()).1.result.total
        (binding name) = n.total (binding name) := by
  refine (rewrite_related (R := fun n n' => Renames n n' ∧
      ∀ name, n'.total (binding name) = n.total (binding name))
    (P := fun n => n.IsRegular ∧ n.Everywhere Targeted) (I := fun _ : Unit => True)
    (superCalls (.symbol p (superPlaceholder k))) (fun _ _ h hc => ⟨h.1.child hc, h.2.child hc⟩)
    (fun n hn _ => ⟨⟨.refl hn.1, hn.2, fun _ => rfl⟩, fun _ => rfl⟩) (fun n m h => ?_)
    (fun n n' _ hn _ _ hparts => ⟨?_, trivial⟩) hn trivial).1
  · rw [superCalls_enter] at h
    split at h <;> cases h
  · have hrenames := (hparts.mono fun _ _ _ hc => hc.1).renames hn
    have htotal : ∀ name, n'.total (binding name) = n.total (binding name) := by
      intro name
      have hself : binding name n' = binding name n := by
        unfold binding
        rw [(hparts.mono fun _ _ _ hc => hc.1).boundName? hn.2.self]
      have hsum : ∀ {cs cs' : List Node}, List.Forall₂ (fun c c' => Renames c c' ∧
          ∀ name, c'.total (binding name) = c.total (binding name)) cs cs' →
            (cs'.map (Node.total (binding name))).sum = (cs.map (Node.total (binding name))).sum := by
        intro cs cs' hcs
        induction hcs with
        | nil => rfl
        | cons hc _ ih => rw [List.map_cons, List.map_cons, List.sum_cons, List.sum_cons, hc.2, ih]
      rw [total_eq, total_eq _ n, hself, hsum hparts.alike.children]
    change Renames n ((if n'.isSuperCall then some _ else none).getD n') ∧
      ∀ name, ((if n'.isSuperCall then some _ else none).getD n').total _ = _
    split
    · rename_i hcall
      have hreplaces := hrenames.replaces.placeholder (isCall_of_isSuperCall hcall) p (superPlaceholder k)
      refine ⟨⟨hreplaces, everywhere_symbol fun h => (by cases h), fun hsymbol => ?_⟩, fun name => ?_⟩
      · rw [hrenames.symbol hsymbol] at hcall
        cases n with
        | symbol => cases hcall
        | _ => cases hsymbol
      · obtain ⟨q, r, t, hn'⟩ := isSuperCall_formed hcall hrenames.replaces.regular.self.2
        rw [← htotal name, hn']
        change (symbol p (superPlaceholder k)).total _ = _
        rw [total_binding_symbol, total_call, total_binding_symbol, total_sequence]
        rfl
    · exact ⟨hrenames, htotal⟩

/-! ### Lifting the calls of overridden blocks -/

/-- A tree before and after the calls of overridden blocks were lifted, with the numbers before and
after. -/
structure Named (i : Nat) (n n' : Node) (j : Nat) : Prop where
  le : i ≤ j
  renames : Renames n n'
  total : ∀ name, n'.total (binding name) = n.total (binding name) + between i j name

theorem Run.named {i j : Nat} {ns ns' : List Node} (h : Run Named i ns ns' j) :
    i ≤ j ∧ ∀ name, (ns'.map (total (binding name))).sum =
      (ns.map (total (binding name))).sum + between i j name := by
  induction h with
  | nil => exact ⟨le_rfl, fun name => by rw [between_self]; rfl⟩
  | cons h _ ih =>
      refine ⟨h.le.trans ih.1, fun name => ?_⟩
      rw [List.map_cons, List.map_cons, List.sum_cons, List.sum_cons, h.total, ih.2,
        ← between_add h.le ih.1]
      omega

/-- The statements of a body bind what the body binds. -/
theorem total_statements (name : String) (n : Node) :
    (n.statements.map (total (binding name))).sum = n.total (binding name) := by
  unfold statements
  split
  · exact (Nat.zero_add _).symm.trans (total_sequence (binding name) _ _).symm
  · simp

theorem Targeted.overridden (p q : Position) (name target : String) :
    (Node.overridden p name (Node.symbol q target)).Everywhere Targeted :=
  everywhere_iff.2 ⟨fun _ => rfl,
    List.forall_mem_singleton.2 (everywhere_symbol fun h => by cases h)⟩

/-- **The names that are bound** after the calls of overridden blocks were lifted: those that were bound,
and one more for each number that was handed out. -/
theorem superLifting_names (hn : n.IsRegular ∧ n.Everywhere Targeted) (i : Nat) :
    Named i n (rewrite superLifting n i).1.result (rewrite superLifting n i).2 := by
  refine rewrite_stepwise (P := fun n => n.IsRegular ∧ n.Everywhere Targeted) superLifting
    (fun _ _ h _ hc => ⟨h.1.child hc, h.2.child hc⟩) (fun _ _ h => by cases h)
    (fun _ _ _ h => by cases h) (fun n es i j m hn _ hrun hm hresult _ => ?_) hn i
  obtain ⟨hle, htotals⟩ := hrun.named
  obtain ⟨hparts, hchildren⟩ := parts_withChildren (hrun.forall₂ fun _ _ _ _ h => h.renames)
  rw [← hm] at hparts hchildren
  have hrenames := hparts.renames hn
  have htotal : ∀ name, m.total (binding name) = n.total (binding name) + between i j name := by
    intro name
    have hself : binding name m = binding name n := by
      unfold binding
      rw [hparts.boundName? hn.2.self]
    rw [total_eq, total_eq _ n, hself, hchildren, htotals, Nat.add_assoc]
  have hreplaces : Replaces n ((liftSuper? m j).1.getD m) := hresult ▸ superLifting_replaces hn.1 i
  change Named i n ((liftSuper? m j).1.getD m) (liftSuper? m j).2
  cases hblock : m.isBlock with
  | false =>
      rw [liftSuper?_eq_none hblock]
      exact ⟨hle, hrenames, htotal⟩
  | true =>
      obtain ⟨p, name, body, rfl⟩ := exists_of_isBlock hblock
      have hbody : body ∈ (block p name body).children := by simp [children, fields, Field.nodes]
      obtain ⟨hinner, hcalls⟩ :=
        superCalls_names ⟨hrenames.replaces.regular.child hbody, hrenames.targeted.child hbody⟩ p j
      rw [liftSuper?_eq] at hreplaces ⊢
      dsimp only at hreplaces ⊢
      generalize (rewrite (superCalls (symbol p (superPlaceholder j))) body ()).1 = calls at *
      split at hreplaces
      · rename_i hchanged
        rw [if_pos hchanged]
        refine ⟨hle.trans j.le_succ, ⟨hreplaces, ?_, fun hsymbol => ?_⟩, fun binds => ?_⟩
        · refine everywhere_iff.2 ⟨fun h => (by cases h), List.forall_mem_singleton.2 ?_⟩
          refine everywhere_iff.2 ⟨fun h => (by cases h), ?_⟩
          simp only [sequence, children, fields, Field.nodes, List.flatMap_cons, List.flatMap_nil,
            List.append_nil]
          exact List.forall_mem_cons.2 ⟨.overridden p p name _, everywhere_statements hinner.targeted⟩
        · cases hrenames.symbol hsymbol
          cases hsymbol
        · -- the body binds what it bound, and the placeholder
          have hbinds := htotal binds
          change total (binding binds) (block p name (sequence _
            (overridden p name (symbol p (superPlaceholder j)) :: calls.result.statements))) =
              total (binding binds) n + between i (j + 1) binds
          rw [total_block] at hbinds
          rw [total_block, total_sequence, List.map_cons, List.sum_cons, total_overridden,
            total_statements, hcalls, ← between_add hle j.le_succ, between_succ]
          simp only [binding, boundName?, sequence, Option.some.injEq, reduceCtorEq, if_false]
            at hbinds ⊢
          omega
      · rename_i hsame
        rw [if_neg hsame]
        exact ⟨hle, hrenames, htotal⟩

end Stencil.Node
