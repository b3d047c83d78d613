/-
**Calls that are taken out of an expression.**

The calls of an expression are bound in the order in which they are made, inner calls first, and numbered
in this order.  So a call mentions placeholders with smaller numbers only, and what it takes to know the
calls is known when it is needed.

Main definitions:

* `Stencil.Node.asyncCalls` — the calls of an expression in the order in which they are made;
* `Stencil.Node.Inline` — an expression, or something else that calls are taken out of;
* `Stencil.Node.Below`, `Stencil.Node.Numbered` — a tree with placeholders up to some number, and binds
  with numbers one after the other;
* `Stencil.Node.Provides` — calls that are known for some binds;
* `Stencil.Node.Taken` — expressions before and after the calls were taken out of them.

Main results:

* `Stencil.Node.Numbered.provides` — binds provide for themselves;
* `Stencil.Node.collector_taken` — taking the calls out of expressions.
-/

import Stencil.Proofs.Lifting.Normal
import Stencil.Proofs.Lifting.Occurrences

set_option autoImplicit false

namespace Stencil.Node

/-! ### Calls -/

/-- The calls of an expression that may suspend, in the order in which they are made: from left to right,
inner calls first. -/
def asyncCalls (filters : List String) (n : Node) : List Node :=
  (if n.isLiftedApart then [] else n.children.attach.flatMap fun c => asyncCalls filters c.1) ++
    if n.mayCallAsync filters then [n] else []
termination_by n.size
decreasing_by exact size_lt_of_mem_children c.2

variable {filters : List String} {n n' : Node}

theorem asyncCalls_eq (filters : List String) (n : Node) :
    n.asyncCalls filters =
      (if n.isLiftedApart then [] else n.children.flatMap (asyncCalls filters)) ++
        if n.mayCallAsync filters then [n] else [] := by
  rw [asyncCalls, List.flatMap_subtype (g := asyncCalls filters) (fun _ _ => rfl)]
  simp

/-- Whether a node is part of an expression or stands for one in an output. -/
def isInline : Node → Bool
  | text _ _ | capture _ _ => true
  | n => n.isTerm

/-- An expression, or something else that calls are taken out of. -/
def Inline (n : Node) : Prop := ∀ k ∈ n.walk isLiftedApart, k.isInline = true

theorem inline_iff : n.Inline ↔
    n.isInline = true ∧ (n.isLiftedApart = false → ∀ c ∈ n.children, c.Inline) :=
  forall_walk_iff

theorem isAdded_of_isInline (h : n.isInline = true) : n.isAdded = false := by
  cases n with
  | bind | overridden => cases h
  | _ => rfl

theorem Inline.isAdded (h : n.Inline) : n.isAdded = false :=
  isAdded_of_isInline (inline_iff.1 h).1

theorem Parts.isInline {R : Node → Node → Prop} (h : Parts R n n') : n'.isInline = n.isInline := by
  cases h with
  | @definition p role => cases role <;> rfl
  | _ => rfl

/-! ### Numbers of placeholders -/

/-- A name that can be written, or a placeholder with a smaller number. -/
def IsBelow (i : Nat) (name : String) : Prop := IsWritable name ∨ ∃ j < i, name = callPlaceholder j

/-- A tree with placeholders up to some number. -/
def Below (i : Nat) (n : Node) : Prop := ∀ name, n.Mentions name → IsBelow i name

theorem IsBelow.mono {i j : Nat} {name : String} (h : IsBelow i name) (hij : i ≤ j) :
    IsBelow j name :=
  h.imp_right fun ⟨k, hk, hname⟩ => ⟨k, hk.trans_le hij, hname⟩

/-- A name below some number is no placeholder with this number. -/
theorem IsBelow.ne {i : Nat} {name : String} (h : IsBelow i name) : name ≠ callPlaceholder i := by
  rintro rfl
  rcases h with hname | ⟨j, hj, hname⟩
  · exact not_isWritable (toList_callPlaceholder i) hname
  · exact hj.ne (callPlaceholder_injective hname).symm

theorem Below.mono {i j : Nat} (h : n.Below i) (hij : i ≤ j) : n.Below j :=
  fun name hname => (h name hname).mono hij

theorem mentions_iff {name : String} : n.Mentions name ↔
    n.asSymbol? = some name ∨ ∃ c ∈ n.children, c.Mentions name := by
  constructor
  · rintro ⟨p, hp⟩
    rcases mem_walk_iff.1 hp with rfl | ⟨_, c, hc, hmem⟩
    · exact .inl rfl
    · exact .inr ⟨c, hc, p, hmem⟩
  · rintro (hname | ⟨c, hc, hname⟩)
    · cases n with
      | symbol p x =>
          cases hname
          exact ⟨p, mem_walk_self _ _⟩
      | _ => cases hname
    · exact hname.child hc

theorem below_iff {i : Nat} : n.Below i ↔
    (∀ name, n.asSymbol? = some name → IsBelow i name) ∧ ∀ c ∈ n.children, c.Below i := by
  constructor
  · intro h
    exact ⟨fun name hname => h name (mentions_iff.2 (.inl hname)),
      fun c hc name hname => h name (hname.child hc)⟩
  · rintro ⟨hself, hchildren⟩ name hname
    rcases mentions_iff.1 hname with hname | ⟨c, hc, hname⟩
    · exact hself name hname
    · exact hchildren c hc name hname

/-- Binds with numbers one after the other, of calls with smaller numbers. -/
inductive Numbered : Nat → List Node → Prop
  | nil {i} : Numbered i []
  | cons {i p a q bs} (ha : a.Below i) (h : Numbered (i + 1) bs) :
    Numbered i (bind p a (symbol q (callPlaceholder i)) :: bs)

theorem Numbered.append {i : Nat} {bs bs' : List Node} (h : Numbered i bs)
    (h' : Numbered (i + bs.length) bs') : Numbered i (bs ++ bs') := by
  induction h with
  | nil => exact h'
  | @cons i p a q bs ha _ ih =>
      refine .cons ha (ih ?_)
      rwa [List.length_cons, ← Nat.add_assoc, Nat.add_right_comm] at h'

theorem Numbered.isBind {i : Nat} {bs : List Node} (h : Numbered i bs) : ∀ b ∈ bs, b.IsBind := by
  induction h with
  | nil => simp
  | cons _ _ ih => exact List.forall_mem_cons.2 ⟨⟨_, _, _, _, rfl⟩, ih⟩

/-! ### Calls that are known -/

/-- The call that a bind makes. -/
def callOf : Node → Node
  | bind _ action _ => action
  | n => n

/-- What a tree is restored to depends on what is known for the names in it. -/
theorem restored_local {known known' : List (String × Node)} (hn : n.Everywhere Orderly)
    (hr : n.IsRegular) (hk : IsKnown known) (hk' : IsKnown known')
    (h : ∀ name, n.Mentions name → known'.lookup name = known.lookup name) :
    Remarked true (restored known n) (restored known' n) := by
  refine (Grown.refl n).restores (S := n.Mentions) hn hr (fun _ => id) known known' hk hk' ?_
  intro name hname
  rw [h name hname]
  cases known.lookup name with
  | none => exact .none
  | some c => exact .some (.refl c)

/-- For each of some binds, the call is known that it makes. -/
def Provides (known : List (String × Node)) (bs : List Node) : Prop :=
  ∀ b ∈ bs, ∃ p a q name c, b = bind p a (symbol q name) ∧ known.lookup name = some c ∧
    Remarked true c (restored known a)

/-- The calls of some binds, each with the calls that were known before it. -/
def boundCalls (known : List (String × Node)) : List Node → List Node
  | [] => []
  | bind _ action (symbol _ name) :: rest =>
    restored known action :: boundCalls ((name, restored known action) :: known) rest
  | _ :: rest => boundCalls known rest

theorem Numbered.lookup_after {known : List (String × Node)} {i : Nat} {bs : List Node}
    (h : Numbered i bs) {name : String} (hname : IsBelow i name) :
    (knownAfter known bs).lookup name = known.lookup name := by
  induction h generalizing known with
  | nil => rfl
  | @cons i p a q bs ha _ ih =>
      rw [knownAfter, ih (hname.mono (Nat.le_succ i)), List.lookup_cons, beq_false_of_ne hname.ne]

/-- Binds provide for themselves. -/
theorem Numbered.provides {known : List (String × Node)} {i : Nat} {bs : List Node}
    (h : Numbered i bs) (hbs : ∀ b ∈ bs, b.Everywhere Orderly ∧ b.IsRegular) (hk : IsKnown known) :
    Provides (knownAfter known bs) bs ∧
      List.Forall₂ (fun b c => Remarked true c (restored (knownAfter known bs) b.callOf)) bs
        (boundCalls known bs) := by
  induction h generalizing known with
  | nil => exact ⟨by simp [Provides], .nil⟩
  | @cons i p a q bs ha h ih =>
      obtain ⟨⟨horderly, hregular⟩, hrest⟩ := List.forall_mem_cons.1 hbs
      have hknown := hk.cons i (restored known a)
      obtain ⟨hprovides, hcalls⟩ := ih hrest hknown
      have hmem : a ∈ (bind p a (symbol q (callPlaceholder i))).children := by
        simp [children, fields, Field.nodes]
      have hcall : Remarked true (restored known a)
          (restored (knownAfter ((callPlaceholder i, restored known a) :: known) bs) a) := by
        refine restored_local (horderly.child hmem) (hregular.child hmem) hk (hknown.after h.isBind) ?_
        intro name hname
        rw [h.lookup_after ((ha name hname).mono (Nat.le_succ i)), List.lookup_cons,
          beq_false_of_ne (ha name hname).ne]
      refine ⟨List.forall_mem_cons.2 ⟨⟨p, a, q, _, _, rfl, ?_, hcall⟩, hprovides⟩, .cons hcall hcalls⟩
      rw [knownAfter, h.lookup_after (.inr ⟨i, Nat.lt_succ_self i, rfl⟩)]
      simp

/-! ### Taking calls out -/

/-- What counts for a bind and for the placeholder in it and where the call was. -/
def added (w : Node → Nat) : Node → Nat
  | n@(bind _ _ target) => w n + 2 * w target
  | _ => 0

/-- Expressions before and after the calls were taken out of them, with the binds for the calls. -/
structure Taken (filters : List String) (i : Nat) (ns ns' bs : List Node) : Prop where
  numbered : Numbered i bs
  below : ∀ n' ∈ ns', n'.Below (i + bs.length)
  inline : ∀ n' ∈ ns', n'.Inline
  orderly : ∀ n' ∈ ns' ++ bs, n'.Everywhere Orderly
  /-- A call stands in a bind instead of an expression, where a placeholder stands for it. -/
  total : ∀ w, Steady w → (ns'.map (total w)).sum + (bs.map (Node.total w)).sum =
    (ns.map (Node.total w)).sum + (bs.map (added w)).sum
  /-- Once the calls are known, the expressions are the same again. -/
  restores : ∀ known, IsKnown known → Provides known bs →
    List.Forall₂ (fun n n' => Remarked true (restored known n) (restored known n')) ns ns'
  /-- The calls are bound in the order in which they are made. -/
  calls : ∀ known, IsKnown known → Provides known bs →
    List.Forall₂ (fun c b => Remarked true (restored known c) (restored known b.callOf))
      (ns.flatMap (asyncCalls filters)) bs

theorem Taken.nil {i : Nat} : Taken filters i [] [] [] where
  numbered := .nil
  below := by simp
  inline := by simp
  orderly := by simp
  total := fun _ _ => rfl
  restores := fun _ _ _ => .nil
  calls := fun _ _ _ => .nil

theorem Taken.append {i : Nat} {ns ns' bs ms ms' bs' : List Node} (h : Taken filters i ns ns' bs)
    (h' : Taken filters (i + bs.length) ms ms' bs') :
    Taken filters i (ns ++ ms) (ns' ++ ms') (bs ++ bs') where
  numbered := h.numbered.append h'.numbered
  below := by
    rw [List.length_append, ← Nat.add_assoc]
    exact List.forall_mem_append.2 ⟨fun n' hn' => (h.below n' hn').mono (Nat.le_add_right _ _), h'.below⟩
  inline := List.forall_mem_append.2 ⟨h.inline, h'.inline⟩
  orderly := by
    have hleft := List.forall_mem_append.1 h.orderly
    have hright := List.forall_mem_append.1 h'.orderly
    exact List.forall_mem_append.2 ⟨List.forall_mem_append.2 ⟨hleft.1, hright.1⟩,
      List.forall_mem_append.2 ⟨hleft.2, hright.2⟩⟩
  total := fun w hw => by
    have hleft := h.total w hw
    have hright := h'.total w hw
    simp only [List.map_append, List.sum_append]
    omega
  restores := fun known hk hprovides => by
    obtain ⟨hbs, hbs'⟩ := List.forall_mem_append.1 hprovides
    exact List.rel_append (h.restores known hk hbs) (h'.restores known hk hbs')
  calls := fun known hk hprovides => by
    obtain ⟨hbs, hbs'⟩ := List.forall_mem_append.1 hprovides
    rw [List.flatMap_append]
    exact List.rel_append (h.calls known hk hbs) (h'.calls known hk hbs')

/-- An expression before and after the calls were taken out of it, with the states before and after. -/
def Gathers (filters : List String) (s : Lifted) (n n' : Node) (s' : Lifted) : Prop :=
  n.Below s.next → ∃ bs, s'.binds = s.binds ++ bs ∧ s'.next = s.next + bs.length ∧
    Taken filters s.next [n] [n'] bs

theorem Run.taken {s s' : Lifted} {ns ns' : List Node} (h : Run (Gathers filters) s ns ns' s')
    (hbelow : ∀ n ∈ ns, n.Below s.next) : ∃ bs, s'.binds = s.binds ++ bs ∧
      s'.next = s.next + bs.length ∧ Taken filters s.next ns ns' bs := by
  induction h with
  | nil => exact ⟨[], by simp, rfl, .nil⟩
  | cons h _ ih =>
      obtain ⟨hn, hrest⟩ := List.forall_mem_cons.1 hbelow
      obtain ⟨bs, hbs, hnext, htaken⟩ := h hn
      obtain ⟨bs', hbs', hnext', htaken'⟩ := ih fun m hm =>
        (hrest m hm).mono (hnext ▸ Nat.le_add_right _ _)
      rw [hnext] at htaken'
      refine ⟨bs ++ bs', by rw [hbs', hbs, List.append_assoc], ?_, htaken.append htaken'⟩
      rw [hnext', hnext, List.length_append, Nat.add_assoc]

theorem forall₂_with_mem {α β : Type} {R : α → β → Prop} {as : List α} {bs : List β}
    (h : List.Forall₂ R as bs) : List.Forall₂ (fun a b => a ∈ as ∧ b ∈ bs ∧ R a b) as bs := by
  induction h with
  | nil => exact .nil
  | cons h _ ih =>
      exact .cons ⟨List.mem_cons_self, List.mem_cons_self, h⟩ (ih.imp fun a b ⟨ha, hb, hR⟩ =>
        ⟨List.mem_cons_of_mem _ ha, List.mem_cons_of_mem _ hb, hR⟩)

/-- A part of an expression, the parts of which had the calls taken out. -/
structure Through (filters : List String) (i : Nat) (n m : Node) (bs : List Node) : Prop where
  numbered : Numbered i bs
  below : m.Below (i + bs.length)
  inline : m.Inline
  orderly : m.Everywhere Orderly ∧ ∀ b ∈ bs, b.Everywhere Orderly
  total : ∀ w, Steady w → m.total w + (bs.map (total w)).sum = n.total w + (bs.map (added w)).sum
  restores : ∀ known, IsKnown known → Provides known bs →
    Remarked true (restored known n) (restored known m)
  calls : ∀ known, IsKnown known → Provides known bs →
    List.Forall₂ (fun c b => Remarked true (restored known c) (restored known b.callOf))
      (n.children.flatMap (asyncCalls filters)) bs

/-- What the parts of a part of an expression make of it. -/
theorem Taken.through {i : Nat} {es bs : List Node} (h : Taken filters i n.children es bs)
    (hn : n.Inline) (hapart : n.isLiftedApart = false) (hbelow : n.Below i)
    (hlength : es.length = n.children.length) : Through filters i n (n.withChildren es) bs := by
  have hes : ∀ e ∈ es, e.isAdded = false := fun e he => (h.inline e he).isAdded
  have hns : ∀ c ∈ n.children, c.isAdded = false := fun c hc =>
    ((inline_iff.1 hn).2 hapart c hc).isAdded
  have hsplit : ∀ {R : Node → Node → Prop}, List.Forall₂ R n.children es →
      List.Forall₂ (fun c e => c.isAdded = false ∧ e.isAdded = false ∧ R c e) n.children es :=
    fun h => (forall₂_with_mem h).imp fun c e ⟨hc, he, hR⟩ => ⟨hns c hc, hes e he, hR⟩
  obtain ⟨hparts, hchildren⟩ := parts_withChildren (R := fun c e => c.isAdded = false ∧ e.isAdded = false)
    (List.forall₂_iff_get.2 ⟨hlength.symm, fun _ _ _ =>
      ⟨hns _ (List.get_mem _ _), hes _ (List.get_mem _ _)⟩⟩)
  obtain ⟨horderly, hbinds⟩ := List.forall_mem_append.1 h.orderly
  generalize hm : n.withChildren es = m at hparts hchildren
  have hinline : m.isInline = true := hparts.isInline.trans (inline_iff.1 hn).1
  have hplain : ∀ c ∈ m.children, c.isAdded = false := hchildren ▸ hes
  refine ⟨h.numbered, ?_, ?_, ⟨?_, hbinds⟩, ?_, ?_, h.calls⟩
  · refine below_iff.2 ⟨fun name hname => ?_, hchildren ▸ h.below⟩
    rw [hparts.asSymbol?] at hname
    exact ((below_iff.1 hbelow).1 name hname).mono (Nat.le_add_right _ _)
  · exact inline_iff.2 ⟨hinline, fun _ => hchildren ▸ h.inline⟩
  · refine everywhere_iff.2 ⟨⟨?_, ?_, ?_, fun _ => hplain⟩, hchildren ▸ horderly⟩
    · rintro p name body rfl
      cases hinline
    · rintro p a b rfl
      cases hinline
    · intro hinserted
      rw [isInserted_of_children hplain] at hinserted
      cases hinserted
  · intro w hw
    have htotal := h.total w hw
    rw [total_eq, total_eq w n, hchildren, hw n m hparts (isAdded_of_isInline (inline_iff.1 hn).1)]
    omega
  · intro known hk hprovides
    have hsame := parts_withChildren (hsplit (h.restores known hk hprovides))
    rw [hm] at hsame
    cases hsymbol : n.asSymbol? with
    | none => exact restored_congr (.of_alike hsame.1.alike) hsymbol
    | some name =>
        cases n with
        | symbol =>
            subst hm
            exact .refl _
        | _ => cases hsymbol

/-- A call that is taken out, or another part of an expression. -/
theorem Through.taken {i : Nat} {m : Node} {bs : List Node} (h : Through filters i n m bs)
    (hapart : n.isLiftedApart = false) (hasync : m.mayCallAsync filters = n.mayCallAsync filters) :
    if m.mayCallAsync filters then
      Taken filters i [n] [symbol m.position (callPlaceholder (i + bs.length))]
        (bs ++ [bind m.position m (symbol m.position (callPlaceholder (i + bs.length)))])
    else Taken filters i [n] [m] bs := by
  have hcalls := asyncCalls_eq filters n
  rw [hapart, ← hasync] at hcalls
  split
  · rename_i hm
    rw [hm] at hcalls
    have hsymbol : ∀ p j, (symbol p (callPlaceholder j)).Everywhere Orderly := fun p j =>
      everywhere_symbol ⟨by rintro _ _ _ ⟨⟩, by rintro _ _ _ ⟨⟩, fun h => (by cases h),
        fun _ c hc => by simp [children, fields] at hc⟩
    have hbind : (bind m.position m (symbol m.position (callPlaceholder (i + bs.length)))).Everywhere
        Orderly := by
      refine everywhere_iff.2 ⟨⟨by rintro _ _ _ ⟨⟩, ?_, fun h => (by cases h), fun _ c hc => ?_⟩,
        fun c hc => ?_⟩
      · rintro _ _ _ ⟨⟩
        exact ⟨_, _, _, _, rfl⟩
      · have hc : c = m ∨ c = symbol m.position (callPlaceholder (i + bs.length)) := by
          simpa [children, fields, Field.nodes] using hc
        rcases hc with rfl | rfl
        · exact h.inline.isAdded
        · rfl
      · have hc : c = m ∨ c = symbol m.position (callPlaceholder (i + bs.length)) := by
          simpa [children, fields, Field.nodes] using hc
        rcases hc with rfl | rfl
        · exact h.orderly.1
        · exact hsymbol _ _
    refine ⟨h.numbered.append (.cons h.below .nil), ?_, ?_, ?_, fun w hw => ?_,
      fun known hk hprovides => ?_, fun known hk hprovides => ?_⟩
    · refine List.forall_mem_singleton.2 (below_iff.2 ⟨fun name hname => ?_, ?_⟩)
      · cases hname
        exact .inr ⟨_, by simp, rfl⟩
      · simp [children, fields]
    · exact List.forall_mem_singleton.2 (inline_iff.2 ⟨rfl, fun _ => by simp [children, fields]⟩)
    · exact List.forall_mem_append.2 ⟨List.forall_mem_singleton.2 (hsymbol _ _),
        List.forall_mem_append.2 ⟨h.orderly.2, List.forall_mem_singleton.2 hbind⟩⟩
    · have htotal := h.total w hw
      simp only [List.map_cons, List.map_nil, List.map_append, List.sum_append, List.sum_cons,
        List.sum_nil, total_symbol, total_bind, added]
      omega
    · obtain ⟨hbs, hlast⟩ := List.forall_mem_append.1 hprovides
      obtain ⟨_, _, _, _, c, hb, hlookup, hc⟩ := hlast _ (List.mem_singleton_self _)
      cases hb
      refine .cons ?_ .nil
      change Remarked true _ (restoredSymbol known _ _)
      rw [restoredSymbol, hlookup]
      exact (h.restores known hk hbs).trans hc.symm
    · obtain ⟨hbs, -⟩ := List.forall_mem_append.1 hprovides
      simp only [List.flatMap_cons, List.flatMap_nil, List.append_nil, hcalls]
      exact List.rel_append (h.calls known hk hbs) (.cons (h.restores known hk hbs) .nil)
  · rename_i hm
    rw [if_neg hm] at hcalls
    refine ⟨h.numbered, by simpa using h.below, by simpa using h.inline, ?_, fun w hw => ?_,
      fun known hk hprovides => .cons (h.restores known hk hprovides) .nil,
      fun known hk hprovides => ?_⟩
    · exact List.forall_mem_cons.2 h.orderly
    · simpa using h.total w hw
    · simpa [hcalls] using h.calls known hk hprovides

/-- **Taking the calls out of expressions**, one after the other. -/
theorem collector_taken (filters : List String) {ns : List Node} {s : Lifted}
    (hns : ∀ n ∈ ns, n.Inline ∧ n.Everywhere Orderly ∧ n.Below s.next) :
    ∃ bs, (mapAll (rewrite (collector filters)) ns s).2.binds = s.binds ++ bs ∧
      (mapAll (rewrite (collector filters)) ns s).2.next = s.next + bs.length ∧
        Taken filters s.next ns (mapAll (rewrite (collector filters)) ns s).1.result bs := by
  have hone : ∀ n : Node, n.Inline ∧ n.Everywhere Orderly → ∀ s : Lifted,
      Gathers filters s n (rewrite (collector filters) n s).1.result
        (rewrite (collector filters) n s).2 := by
    intro n hn s
    refine rewrite_stepwise (P := fun n => n.Inline ∧ n.Everywhere Orderly) (collector filters)
      ?_ ?_ ?_ ?_ hn s
    · intro n c hn henter hc
      have hapart : n.isLiftedApart = false := by
        dsimp only [collector] at henter
        split at henter
        · cases henter
        · exact Bool.eq_false_of_not_eq_true ‹_›
      exact ⟨(inline_iff.1 hn.1).2 hapart c hc, hn.2.child hc⟩
    · intro n m h
      dsimp only [collector] at h
      split at h <;> cases h
    · intro n s hn henter hbelow
      have hapart : n.isLiftedApart = true := by
        dsimp only [collector] at henter
        split at henter
        · assumption
        · cases henter
      have hclear : n.Clear filters := clear_of_isLiftedApart hapart
      have hasync := (clear_iff.1 hclear).1
      refine ⟨[], by simp, rfl, .nil, by simpa using hbelow, by simpa using hn.1, by simpa using hn.2,
        fun w _ => rfl, fun known hk _ => .cons (.refl _) .nil, fun known hk _ => ?_⟩
      simp [asyncCalls_eq, hapart, hasync]
    · intro n es s s' m hn henter hrun hm _ _ hbelow
      have hapart : n.isLiftedApart = false := by
        dsimp only [collector] at henter
        split at henter
        · cases henter
        · exact Bool.eq_false_of_not_eq_true ‹_›
      obtain ⟨bs, hbs, hnext, htaken⟩ := hrun.taken (below_iff.1 hbelow).2
      have hthrough := htaken.through hn.1 hapart hbelow hrun.length_eq
      have hasync : (n.withChildren es).mayCallAsync filters = n.mayCallAsync filters :=
        (withChildren_of_length hrun.length_eq).1.mayCallAsync filters
      have hafter := hthrough.taken hapart hasync
      subst hm
      rw [collector_leave]
      split at hafter
      · rename_i hcall
        rw [if_pos hcall, hnext]
        refine ⟨_, ?_, ?_, hafter⟩
        · change s'.binds ++ _ = _
          rw [hbs, List.append_assoc]
        · simp [Nat.add_assoc]
      · rename_i hcall
        rw [if_neg hcall]
        exact ⟨bs, hbs, hnext, hafter⟩
  exact Run.taken (mapAll_run (fun n hn s => hone n ⟨(hns n hn).1, (hns n hn).2.1⟩ s) s)
    fun n hn => (hns n hn).2.2

end Stencil.Node
