/-
**Statements with their calls before them.**

Where a statement makes calls that may suspend, a list takes its place: binds for the calls, and after
them the statement with placeholders.  This module goes through a tree that was read and says what lists
are put into it and that nothing else happens.

Main definitions:

* `Stencil.Node.StandsFor` — a list that takes the place of a statement of a tree;
* `Stencil.Node.Became` — a part of a tree, and what becomes of it;
* `Stencil.Node.Lifts` — the same with the numbers of the placeholders before and after.

Main results:

* `Stencil.Node.lifting_lifts` — **lifting the calls of a tree that was read**.
-/

import Stencil.Proofs.Lifting.Collecting
import Stencil.Proofs.Syntax.Prepared

set_option autoImplicit false

namespace Stencil.Node

variable {filters : List String} {root n n' m : Node}

/-! ### Trees that were read -/

theorem Term.inline (h : n.Term) : n.Inline := by
  induction n using childInduction with
  | step n ih =>
      obtain ⟨hself, hchildren⟩ := term_iff.1 h
      refine inline_iff.2 ⟨?_, fun hapart c hc => ih c hc (hchildren ?_ c hc)⟩
      · cases n with
        | text | capture => rfl
        | _ => exact hself
      · cases n with
        | definition p role =>
            cases role with
            | named => cases hself
            | caller => cases hapart
        | block => cases hself
        | _ => rfl

theorem Member.inline (h : n.Member) : n.Inline := by
  rcases h with ⟨p, content, rfl⟩ | h | ⟨p, name, q, r, body, more, rfl, hmore⟩
  · exact inline_iff.2 ⟨rfl, fun _ c hc => by simp [children, fields] at hc⟩
  · exact h.inline
  · have hcapture : (capture r body).Inline := inline_iff.2 ⟨rfl, fun h => by cases h⟩
    have hlist : (sequence q (capture r body :: more)).Inline := by
      refine inline_iff.2 ⟨rfl, fun _ => ?_⟩
      simpa [sequence, children, fields, Field.nodes] using
        And.intro hcapture fun m hm => (hmore m hm).inline
    exact inline_iff.2 ⟨rfl, fun _ => List.forall_mem_singleton.2 hlist⟩

/-- Calls are taken out of expressions. -/
theorem Plain.inline (h : n.Plain) : ∀ e ∈ n.slots, e.Inline := by
  cases n with
  | group kind p ns =>
      cases kind with
      | output => exact fun e he => (h e he).inline
      | _ => simp [slots]
  | assign p targets value body =>
      cases value with
      | none => simp [slots]
      | some value => exact List.forall_mem_singleton.2 (h.2 value rfl).inline
  | loop => exact List.forall_mem_singleton.2 h.1.inline
  | branch => exact List.forall_mem_singleton.2 (Term.inline h)
  | tagCall => exact h.elim
  | _ => simp [slots]

theorem Plain.isAdded (h : n.Plain) : n.isAdded = false := by
  cases n with
  | bind | overridden => exact h.elim
  | _ => rfl

/-- Nothing is lifted from what calls are taken out of. -/
theorem slots_of_isInline (h : n.isInline = true) : n.slots = [] := by
  cases n with
  | group kind =>
      cases kind with
      | output => cases h
      | _ => rfl
  | assign | loop | branch | tagCall => cases h
  | _ => rfl

/-! ### Lists that are put in -/

/-- The binds of a list that was put in. -/
def bindsOf (n : Node) : List Node := n.members.dropLast

/-- A list that takes the place of a statement of a tree. -/
structure StandsFor (filters : List String) (root : Node) (i : Nat) (bs : List Node) (m L : Node) :
    Prop where
  shape : ∃ p, L = sequence p (bs ++ [m])
  nonempty : bs ≠ []
  isAdded : m.isAdded = false
  numbered : Numbered i bs
  /-- Each placeholder is there where it is bound, and in one other place. -/
  twice : ∀ j, i ≤ j → j < i + bs.length → ((bs ++ [m]).map (uses (callPlaceholder j))).sum = 2
  /-- The list is restored to the statement, and the calls to those of the statement. -/
  restored : ∃ n ∈ root.walk fun _ => false, ∀ known, IsKnown known →
    Remarked true n (restored known L) ∧
      List.Forall₂ (Remarked true) (n.slots.flatMap (asyncCalls filters)) (boundCalls known bs)

/-- A part of a tree that was read, and what becomes of it. -/
structure Became (filters : List String) (n n' : Node) : Prop where
  isAdded : n'.isAdded = false
  orderly : n'.Everywhere Orderly
  regular : n'.IsRegular
  restored : ∀ known, IsKnown known → Remarked true n (restored known n')
  inline : n.Inline → n'.Inline
  calls : n.Inline → ∀ known, IsKnown known →
    List.Forall₂ (fun c c' => Remarked true c (Node.restored known c')) (n.asyncCalls filters)
      (n'.asyncCalls filters)
  list : ∀ p ns, n = sequence p ns → ∃ ns', n' = sequence p ns' ∧ ∀ m ∈ ns', m.isAdded = false

/-- The lists that were put into some trees, with the numbers of the placeholders before and after. -/
structure Inserts (filters : List String) (root : Node) (i : Nat) (ns ns' Ls : List Node) (j : Nat) :
    Prop where
  numbered : Numbered i (Ls.flatMap bindsOf)
  next : j = i + (Ls.flatMap bindsOf).length
  below : ∀ n' ∈ ns', n'.Below j
  lists : ∀ L ∈ Ls, ∃ i m, StandsFor filters root i L.bindsOf m L
  total : ∀ w, Steady w → (ns'.map (total w)).sum =
    (ns.map (total w)).sum + (Ls.map w).sum + ((Ls.flatMap bindsOf).map (added w)).sum

theorem Inserts.nil {i : Nat} : Inserts filters root i [] [] [] i where
  numbered := .nil
  next := rfl
  below := by simp
  lists := by simp
  total := fun _ _ => rfl

theorem Inserts.append {i j k : Nat} {ns ns' Ls ms ms' Ls' : List Node}
    (h : Inserts filters root i ns ns' Ls j) (h' : Inserts filters root j ms ms' Ls' k) :
    Inserts filters root i (ns ++ ms) (ns' ++ ms') (Ls ++ Ls') k where
  numbered := by
    rw [List.flatMap_append]
    exact h.numbered.append (h.next ▸ h'.numbered)
  next := by
    rw [h'.next, h.next, List.flatMap_append, List.length_append, Nat.add_assoc]
  below := List.forall_mem_append.2 ⟨fun n' hn' => (h.below n' hn').mono
    (h'.next ▸ Nat.le_add_right _ _), h'.below⟩
  lists := List.forall_mem_append.2 ⟨h.lists, h'.lists⟩
  total := fun w hw => by
    have hleft := h.total w hw
    have hright := h'.total w hw
    simp only [List.map_append, List.sum_append, List.flatMap_append]
    omega

/-- A part of a tree and what becomes of it, with the lists that were put in. -/
def Lifts (filters : List String) (root : Node) (i : Nat) (n n' : Node) (j : Nat) : Prop :=
  Became filters n n' ∧ ∃ Ls, Inserts filters root i [n] [n'] Ls j

theorem Run.inserts {i j : Nat} {ns ns' : List Node} (h : Run (Lifts filters root) i ns ns' j) :
    ∃ Ls, Inserts filters root i ns ns' Ls j := by
  induction h with
  | nil => exact ⟨[], .nil⟩
  | cons h _ ih =>
      obtain ⟨-, Ls, hLs⟩ := h
      obtain ⟨Ls', hLs'⟩ := ih
      exact ⟨Ls ++ Ls', hLs.append hLs'⟩

/-! ### Names -/

theorem uses_eq_zero {name : String} (h : ¬n.Mentions name) : n.uses name = 0 := by
  rw [uses, findAll, List.length_eq_zero_iff, List.filter_eq_nil_iff]
  intro m hm hname
  rw [beq_iff_eq] at hname
  cases m with
  | symbol p x =>
      cases hname
      exact h ⟨p, hm⟩
  | _ => cases hname

theorem Below.uses {i j : Nat} (h : n.Below i) (hj : i ≤ j) : n.uses (callPlaceholder j) = 0 := by
  refine uses_eq_zero fun hname => ?_
  rcases h _ hname with hname | ⟨k, hk, hname⟩
  · exact not_isWritable (toList_callPlaceholder j) hname
  · have := callPlaceholder_injective hname
    omega

/-- Each number of some binds is counted twice, where it is bound and where it is used. -/
theorem Numbered.sum_added {i j : Nat} {bs : List Node} (h : Numbered i bs) :
    (bs.map (added fun m => if m.asSymbol? = some (callPlaceholder j) then 1 else 0)).sum =
      if i ≤ j ∧ j < i + bs.length then 2 else 0 := by
  induction h with
  | nil =>
      rw [if_neg (by simp)]
      rfl
  | @cons i p a q bs ha _ ih =>
      have hself : callPlaceholder i = callPlaceholder j ↔ i = j := callPlaceholder_injective.eq_iff
      have hhead : added (fun m => if m.asSymbol? = some (callPlaceholder j) then 1 else 0)
          (bind p a (symbol q (callPlaceholder i))) = if i = j then 2 else 0 := by
        by_cases hij : i = j
        · subst hij
          simp [added, asSymbol?]
        · simp [added, asSymbol?, hself, hij]
      rw [List.map_cons, List.sum_cons, ih, hhead, List.length_cons]
      split_ifs <;> omega

theorem Numbered.isBelow {i : Nat} {bs : List Node} (h : Numbered i bs) :
    ∀ b ∈ bs, b.Below (i + bs.length) := by
  induction h with
  | nil => simp
  | @cons i p a q bs ha _ ih =>
      refine List.forall_mem_cons.2 ⟨below_iff.2 ⟨fun name hname => (by cases hname), ?_⟩,
        fun b hb => ?_⟩
      · have hsymbol : (symbol q (callPlaceholder i)).Below (i + (bs.length + 1)) :=
          below_iff.2 ⟨fun name hname => by
            cases hname
            exact .inr ⟨i, by omega, rfl⟩, by simp [children, fields]⟩
        simpa [children, fields, Field.nodes] using And.intro (ha.mono (Nat.le_add_right _ _)) hsymbol
      · exact (ih b hb).mono (by simp; omega)

/-! ### One node -/

/-- A part of a tree that was read, the parts of which had their calls lifted. -/
structure Reached (filters : List String) (root : Node) (i : Nat) (n m : Node) (Ls : List Node)
    (j : Nat) : Prop where
  parts : Parts (fun c c' => c.isAdded = false ∧ c'.isAdded = false ∧ Became filters c c') n m
  inserts : Inserts filters root i n.children m.children Ls j
  isAdded : m.isAdded = false
  below : m.Below j
  orderly : m.Everywhere Orderly

/-- A tree with parts that are restored to those of a tree that was read is restored to it. -/
theorem restored_parts {known : List (String × Node)} (hn : n.Plain) (hk : IsKnown known)
    (h : Alike (fun _ _ => True)
      (fun c c' => c'.isAdded = false ∧ Remarked true c (restored known c')) n m) :
    Remarked true n (restored known m) := by
  cases hsymbol : m.asSymbol? with
  | none => exact .of_node (restored_runsAs (.of_alike h) hsymbol)
  | some name =>
      cases h with
      | @symbol p p' s hp =>
          change Remarked true _ (restoredSymbol known p' s)
          rw [hk.restoredSymbol hn]
          exact .of_alike (.symbol hp) (by rintro _ _ _ _ _ _ ⟨⟩)
      | _ => cases hsymbol

/-- What is made of the parts of a node is in order. -/
theorem Run.reached {i j : Nat} {es : List Node} (hn : n.Parsed)
    (h : Run (Lifts filters root) i n.children es j) :
    ∃ Ls, Reached filters root i n (n.withChildren es) Ls j := by
  obtain ⟨Ls, hLs⟩ := h.inserts
  have hplain : ∀ c ∈ n.children, c.isAdded = false := fun c hc =>
    (parsed_iff.1 ((parsed_iff.1 hn).2 c hc)).1.1.isAdded
  have hes := forall₂_mono (R := Became filters)
    (Q := fun c c' => c.isAdded = false ∧ c'.isAdded = false ∧ Became filters c c')
    (fun c c' hc h => ⟨hplain c hc, h.isAdded, h⟩) (h.forall₂ fun _ _ _ _ h => h.1)
  obtain ⟨hparts, hchildren⟩ := parts_withChildren hes
  generalize n.withChildren es = m at hparts hchildren
  have hself := hn.self.1
  have hadded : ∀ c ∈ m.children, c.isAdded = false := fun c hc => by
    obtain ⟨_, _, _, hc, _⟩ := hparts.mem c hc
    exact hc
  refine ⟨Ls, hparts, hchildren ▸ hLs, hparts.isAdded.trans hself.isAdded, ?_, ?_⟩
  · refine below_iff.2 ⟨fun name hname => ?_, hchildren ▸ hLs.below⟩
    rw [hparts.asSymbol?] at hname
    cases n with
    | symbol p x =>
        cases hname
        exact .inl hself
    | _ => cases hname
  · refine everywhere_iff.2 ⟨⟨?_, ?_, fun hinserted => ?_, fun _ => hadded⟩, fun c hc => ?_⟩
    · rintro p name body rfl
      cases hparts with
      | block hbody =>
          obtain ⟨q, ns, rfl⟩ := hself
          obtain ⟨ns', rfl, hns'⟩ := hbody.2.2.list q ns rfl
          exact ⟨q, ns', rfl, hns'⟩
    · rintro p a b rfl
      cases hparts with
      | bind => exact hself.elim
    · rw [isInserted_of_children hadded] at hinserted
      cases hinserted
    · obtain ⟨_, _, _, _, hc⟩ := hparts.mem c hc
      exact hc.orderly

/-- Calls are in the parts of a node where they were. -/
theorem forall₂_asyncCalls {known : List (String × Node)} {cs cs' : List Node}
    (h : List.Forall₂ (Became filters) cs cs') (hcs : ∀ c ∈ cs, c.Inline) (hk : IsKnown known) :
    List.Forall₂ (fun c c' => Remarked true c (restored known c')) (cs.flatMap (asyncCalls filters))
      (cs'.flatMap (asyncCalls filters)) := by
  induction h with
  | nil => exact .nil
  | cons h _ ih =>
      obtain ⟨hc, hrest⟩ := List.forall_mem_cons.1 hcs
      rw [List.flatMap_cons, List.flatMap_cons]
      exact List.rel_append (h.calls hc known hk) (ih hrest)

/-- A node that nothing is lifted from. -/
theorem Reached.became {i j : Nat} {Ls : List Node} (h : Reached filters root i n m Ls j)
    (hn : n.Parsed) (hregular : m.IsRegular) : Became filters n m := by
  have halike := h.parts.alike
  have hrestored : ∀ known, IsKnown known → Remarked true n (restored known m) := fun known hk =>
    restored_parts hn.self.1 hk (halike.mono fun c c' _ hc => ⟨hc.2.1, hc.2.2.restored known hk⟩)
  have hchildren : List.Forall₂ (Became filters) n.children m.children :=
    halike.children.imp fun c c' hc => hc.2.2
  refine ⟨h.isAdded, h.orderly, hregular, hrestored, fun hinline => ?_, fun hinline known hk => ?_, ?_⟩
  · refine inline_iff.2 ⟨h.parts.isInline.trans (inline_iff.1 hinline).1, fun hapart c' hc' => ?_⟩
    rw [h.parts.isLiftedApart] at hapart
    obtain ⟨c, hc, hbecame⟩ := forall₂_mem hchildren c' hc'
    exact hbecame.inline ((inline_iff.1 hinline).2 hapart c hc)
  · rw [asyncCalls_eq, asyncCalls_eq, h.parts.isLiftedApart, h.parts.mayCallAsync]
    refine List.rel_append ?_ ?_
    · cases hapart : n.isLiftedApart with
      | true => exact .nil
      | false => exact forall₂_asyncCalls hchildren ((inline_iff.1 hinline).2 hapart) hk
    · split
      · exact .cons (hrestored known hk) .nil
      · exact .nil
  · rintro p ns rfl
    have hparts := h.parts
    cases hparts with
    | group hns =>
        refine ⟨_, rfl, fun c' hc' => ?_⟩
        obtain ⟨_, _, _, hc, _⟩ := forall₂_mem hns c' hc'
        exact hc

theorem forall₂_of_forall {α β : Type} {R : α → β → Prop} {as : List α} {bs : List β}
    (hlength : bs.length = as.length) (h : ∀ a ∈ as, ∀ b ∈ bs, R a b) : List.Forall₂ R as bs :=
  List.forall₂_iff_get.2 ⟨hlength.symm, fun _ _ _ => h _ (List.get_mem _ _) _ (List.get_mem _ _)⟩

/-- No list is put in for a node that nothing is lifted from. -/
theorem Reached.keep {i j : Nat} {Ls : List Node} (h : Reached filters root i n m Ls j)
    (hn : n.Parsed) : Inserts filters root i [n] [m] Ls j := by
  refine ⟨h.inserts.numbered, h.inserts.next, List.forall_mem_singleton.2 h.below, h.inserts.lists,
    fun w hw => ?_⟩
  have hchildren := h.inserts.total w hw
  have hself : w m = w n := hw n m (h.parts.mono fun c c' _ hc => ⟨hc.1, hc.2.1⟩) hn.self.1.isAdded
  simp only [List.map_cons, List.map_nil, List.sum_cons, List.sum_nil, total_eq w n, total_eq w m]
  omega

/-- A statement that calls were lifted from, with the binds for them. -/
structure Emptied (filters : List String) (root : Node) (i j : Nat) (n m : Node) (Ls fs bs : List Node)
    (p : Position) : Prop where
  reached : Reached filters root i n m Ls j
  parsed : n.Parsed
  mem : n ∈ root.walk fun _ => false
  taken : Taken filters j m.slots fs bs
  length : fs.length = m.slots.length
  nonempty : bs ≠ []
  regular : (sequence p (bs ++ [m.withSlots fs])).IsRegular

namespace Emptied

variable {i j : Nat} {Ls fs bs : List Node} {p : Position}
  (h : Emptied filters root i j n m Ls fs bs p)

include h

theorem binds : ∀ b ∈ bs, b.Everywhere Orderly ∧ b.IsRegular := fun b hb =>
  ⟨h.taken.orderly b (List.mem_append_right _ hb),
    h.regular.child (by simp [sequence, children, fields, Field.nodes, hb])⟩

/-- What is known after the binds provides for them. -/
theorem provides {known : List (String × Node)} (hk : IsKnown known) :
    IsKnown (knownAfter known bs) ∧ Provides (knownAfter known bs) bs ∧
      List.Forall₂ (fun b c => Remarked true c (restored (knownAfter known bs) b.callOf)) bs
        (boundCalls known bs) :=
  ⟨hk.after h.taken.numbered.isBind, h.taken.numbered.provides h.binds hk⟩

theorem slots_ne_nil : n.slots ≠ [] := by
  intro hnil
  have hslots := h.reached.parts.slots.length_eq
  rw [hnil, eq_comm, List.length_nil, List.length_eq_zero_iff] at hslots
  obtain ⟨hknown, hprovides, -⟩ := h.provides (show IsKnown [] by simp [IsKnown])
  have hcalls := h.taken.calls _ hknown hprovides
  rw [hslots] at hcalls
  cases hcalls
  exact h.nonempty rfl

theorem isBlock : n.isBlock = false := by
  cases hn : n with
  | block => exact absurd (by rw [hn]; rfl) h.slots_ne_nil
  | _ => rfl

theorem not_inline : ¬n.Inline := fun hinline =>
  h.slots_ne_nil (slots_of_isInline (inline_iff.1 hinline).1)

/-- The statement is one of its kind, with parts that are in order. -/
theorem parts : Parts (fun c c' => c.isAdded = false ∧ c'.isAdded = false ∧ c'.Everywhere Orderly) n
    (m.withSlots fs) := by
  refine (h.reached.parts.mono fun c c' _ hc => ?_).withSlots
    (forall₂_of_forall (h.length.trans h.reached.parts.slots.length_eq.symm) fun c hc f hf => ?_)
  · exact ⟨hc.1, hc.2.1, hc.2.2.orderly⟩
  · exact ⟨(h.parsed.self.1.inline c hc).isAdded, (h.taken.inline f hf).isAdded,
      h.taken.orderly f (List.mem_append_left _ hf)⟩

theorem isAdded : (m.withSlots fs).isAdded = false :=
  h.parts.isAdded.trans h.parsed.self.1.isAdded

/-- The statement is in order. -/
theorem orderly : (m.withSlots fs).Everywhere Orderly := by
  have hchildren : ∀ c ∈ (m.withSlots fs).children, c.isAdded = false ∧ c.Everywhere Orderly :=
    fun c hc => by
      obtain ⟨_, _, _, hc⟩ := h.parts.mem c hc
      exact hc
  have hblock := h.parts.isBlock.trans h.isBlock
  refine everywhere_iff.2 ⟨⟨fun p name body hg => ?_, fun p a b hg => ?_, fun hinserted => ?_,
    fun _ c hc => (hchildren c hc).1⟩, fun c hc => (hchildren c hc).2⟩
  · rw [hg] at hblock
    cases hblock
  · have hadded := h.isAdded
    rw [hg] at hadded
    cases hadded
  · rw [isInserted_of_children fun c hc => (hchildren c hc).1] at hinserted
    cases hinserted

/-- The list is restored to the statement. -/
theorem restored {known : List (String × Node)} (hk : IsKnown known) :
    Remarked true n (Node.restored known (sequence p (bs ++ [m.withSlots fs]))) := by
  obtain ⟨hknown, hprovides, -⟩ := h.provides hk
  rw [restored_inserted h.taken.numbered.isBind h.nonempty h.isAdded]
  refine restored_parts h.parsed.self.1 hknown (Parts.withSlots (R := fun c c' => c'.isAdded = false ∧
    Remarked true c (Node.restored _ c')) (h.reached.parts.mono fun c c' _ hc => ?_) ?_).alike
  · exact ⟨hc.2.1, hc.2.2.restored _ hknown⟩
  · have hslots := h.reached.parts.slots
    have hrestores := h.taken.restores _ hknown hprovides
    have hsame : List.Forall₂ (fun c f => Remarked true c (Node.restored (knownAfter known bs) f))
        n.slots fs :=
      forall₂_trans (fun c e f hce hef => (hce.2.2.restored _ hknown).trans hef) hslots hrestores
    exact (forall₂_with_mem hsame).imp fun c f ⟨_, hf, hcf⟩ => ⟨(h.taken.inline f hf).isAdded, hcf⟩

/-- The calls of the statement are bound in their order. -/
theorem calls {known : List (String × Node)} (hk : IsKnown known) :
    List.Forall₂ (Remarked true) (n.slots.flatMap (asyncCalls filters)) (boundCalls known bs) := by
  obtain ⟨hknown, hprovides, hcalls⟩ := h.provides hk
  have hslots := forall₂_asyncCalls (h.reached.parts.slots.imp fun c c' hc => hc.2.2)
    h.parsed.self.1.inline hknown
  have hbinds : List.Forall₂ (fun c b => Remarked true c (Node.restored (knownAfter known bs) b.callOf))
      (n.slots.flatMap (asyncCalls filters)) bs :=
    forall₂_trans (fun c c' b hc hb => hc.trans hb) hslots (h.taken.calls _ hknown hprovides)
  exact forall₂_trans (fun c b c' hc hc' => hc.trans hc'.symm) hbinds hcalls

/-- What becomes of the statement. -/
theorem became : Became filters n (sequence p (bs ++ [m.withSlots fs])) where
  isAdded := rfl
  orderly := by
    have hmembers : ∀ c ∈ bs ++ [m.withSlots fs], c.Everywhere Orderly :=
      List.forall_mem_append.2 ⟨fun b hb => (h.binds b hb).1, List.forall_mem_singleton.2 h.orderly⟩
    have hinserted : (sequence p (bs ++ [m.withSlots fs])).isInserted = true := by
      obtain ⟨b, rest, hbs⟩ := List.exists_cons_of_ne_nil h.nonempty
      obtain ⟨q, a, r, k, hb⟩ := h.taken.numbered.isBind b (hbs ▸ List.mem_cons_self)
      rw [hbs, hb]
      rfl
    refine everywhere_iff.2 ⟨⟨by rintro _ _ _ ⟨⟩, by rintro _ _ _ ⟨⟩, fun _ =>
      ⟨p, bs, _, rfl, h.taken.numbered.isBind, h.isAdded⟩, fun hplain => ?_⟩, ?_⟩
    · rw [hinserted] at hplain
      cases hplain
    · simpa [sequence, children, fields, Field.nodes] using hmembers
  regular := h.regular
  restored := fun _ hk => h.restored hk
  inline := fun hinline => absurd hinline h.not_inline
  calls := fun hinline => absurd hinline h.not_inline
  list := by
    rintro q ns rfl
    exact absurd rfl h.slots_ne_nil

/-- What counts for the statement counts for the list, with what counts for the binds. -/
theorem total {w : Node → Nat} (hw : Steady w) :
    ((bs ++ [m.withSlots fs]).map (Node.total w)).sum = m.total w + (bs.map (added w)).sum := by
  have hparts : Parts (fun c c' => c.isAdded = false ∧ c'.isAdded = false) m (m.withSlots fs) := by
    refine (Parts.of_same fun c hc => ?_).withSlots (forall₂_of_forall h.length fun c hc f hf => ?_)
    · obtain ⟨_, _, _, hadded, _⟩ := h.reached.parts.mem c hc
      exact ⟨hadded, hadded⟩
    · obtain ⟨_, _, _, hadded, _⟩ := h.reached.parts.mem c (mem_children_of_mem_slots hc)
      exact ⟨hadded, (h.taken.inline f hf).isAdded⟩
  have hsum := sum_children_withSlots h.length (Node.total w)
  have htaken := h.taken.total w hw
  rw [List.map_append, List.sum_append, List.map_singleton, List.sum_singleton,
    total_eq w (m.withSlots fs), total_eq w m, hw _ _ hparts h.reached.isAdded]
  omega

theorem below : (sequence p (bs ++ [m.withSlots fs])).Below (j + bs.length) := by
  have hstatement : (m.withSlots fs).Below (j + bs.length) := by
    refine below_iff.2 ⟨fun name hname => ?_, fun c hc => ?_⟩
    · rw [h.parts.asSymbol?, ← h.reached.parts.asSymbol?] at hname
      exact ((below_iff.1 h.reached.below).1 name hname).mono (Nat.le_add_right _ _)
    · rcases mem_children_withSlots hc with hc | hc
      · exact h.taken.below c hc
      · exact ((below_iff.1 h.reached.below).2 c hc).mono (Nat.le_add_right _ _)
  refine below_iff.2 ⟨fun _ hname => (by cases hname), ?_⟩
  have hmembers : ∀ c ∈ bs ++ [m.withSlots fs], c.Below (j + bs.length) :=
    List.forall_mem_append.2 ⟨h.taken.numbered.isBelow, List.forall_mem_singleton.2 hstatement⟩
  simpa [sequence, children, fields, Field.nodes] using hmembers

/-- The list takes the place of the statement. -/
theorem standsFor :
    StandsFor filters root j bs (m.withSlots fs) (sequence p (bs ++ [m.withSlots fs])) where
  shape := ⟨p, rfl⟩
  nonempty := h.nonempty
  isAdded := h.isAdded
  numbered := h.taken.numbered
  twice := fun k hk hlt => by
    have htotal := h.total (steady_uses (callPlaceholder k))
    have hnone := h.reached.below.uses hk
    rw [uses_eq_total] at hnone
    rw [show uses (callPlaceholder k) = Node.total _ from funext fun n => uses_eq_total _ n, htotal,
      hnone, h.taken.numbered.sum_added, if_pos ⟨hk, hlt⟩]
  restored := ⟨n, h.mem, fun _ hk => ⟨h.restored hk, h.calls hk⟩⟩

/-- One more list is put in. -/
theorem inserts : Inserts filters root i [n] [sequence p (bs ++ [m.withSlots fs])]
    (Ls ++ [sequence p (bs ++ [m.withSlots fs])]) (j + bs.length) := by
  have hold := h.reached.inserts
  have hbinds : (sequence p (bs ++ [m.withSlots fs])).bindsOf = bs := by
    simp [bindsOf, sequence, members]
  have hall : (Ls ++ [sequence p (bs ++ [m.withSlots fs])]).flatMap bindsOf = Ls.flatMap bindsOf ++ bs := by
    rw [List.flatMap_append, List.flatMap_singleton, hbinds]
  refine ⟨?_, ?_, List.forall_mem_singleton.2 h.below, ?_, fun w hw => ?_⟩
  · rw [hall]
    exact hold.numbered.append (hold.next ▸ h.taken.numbered)
  · rw [hall, List.length_append, hold.next, Nat.add_assoc]
  · refine List.forall_mem_append.2 ⟨hold.lists, List.forall_mem_singleton.2 ⟨j, m.withSlots fs, ?_⟩⟩
    rw [hbinds]
    exact h.standsFor
  · have htotal := h.total hw
    have hchildren := hold.total w hw
    have hself : w m = w n := hw n m (h.reached.parts.mono fun c c' _ hc => ⟨hc.1, hc.2.1⟩)
      h.parsed.self.1.isAdded
    rw [total_eq w m] at htotal
    rw [hall]
    simp only [List.map_append, List.sum_append, List.map_cons, List.map_nil, List.sum_cons,
      List.sum_nil, total_sequence, total_eq w n] at htotal hchildren ⊢
    omega

end Emptied

/-! ### Whole trees -/

/-- **Lifting the calls of a tree that was read.** -/
theorem lifting_lifts (filters : List String) (hn : root.Parsed) :
    Lifts filters root 0 root (rewrite (lifting filters) root 0).1.result
      (rewrite (lifting filters) root 0).2 := by
  refine rewrite_stepwise (P := fun n => n.Parsed ∧ n ∈ root.walk fun _ => false) (lifting filters)
    (fun n c hn _ hc => ⟨(parsed_iff.1 hn.1).2 c hc, ?_⟩) (fun _ _ h => by cases h)
    (fun _ _ _ h => by cases h) (fun n es s s' m hn _ hrun hm hresult _ => ?_)
    ⟨hn, mem_walk_self _ _⟩ 0
  · exact mem_walk_trans hn.2 (mem_walk_of_mem_children rfl hc (mem_walk_self _ _))
  -- First the parts change.  Then the calls in the slots are taken out, and if there are any, a list of their
  -- binds takes the statement as its last member.
  · obtain ⟨Ls, hreached⟩ := hrun.reached hn.1
    rw [← hm] at hreached
    have hregular := (lifting_replaces filters hn.1.regular s).regular
    rw [hresult] at hregular
    have hslots : ∀ e ∈ m.slots, e.Inline ∧ e.Everywhere Orderly ∧ e.Below s' := fun e he => by
      obtain ⟨c, hc, _, _, hbecame⟩ := forall₂_mem hreached.parts.slots e he
      exact ⟨hbecame.inline (hn.1.self.1.inline c hc), hbecame.orderly,
        (below_iff.1 hreached.below).2 e (mem_children_of_mem_slots he)⟩
    obtain ⟨bs, hbs, hnext, htaken⟩ := collector_taken filters (s := ⟨s', []⟩) hslots
    have hlength := mapAll_length (f := rewrite (collector filters)) m.slots ⟨s', []⟩
    change (Option.getD (lift? filters m s').1 m).IsRegular at hregular
    change Lifts filters root s n (Option.getD (lift? filters m s').1 m) (lift? filters m s').2
    rw [lift?_slots] at hregular ⊢
    dsimp only at hregular ⊢
    rw [hnext]
    rw [hbs, List.nil_append] at hregular ⊢
    generalize (mapAll (rewrite (collector filters)) m.slots ⟨s', []⟩).1.result = fs
      at htaken hlength hregular ⊢
    cases hempty : bs.isEmpty with
    | true =>
        rw [List.isEmpty_iff.1 hempty] at hregular ⊢
        exact ⟨hreached.became hn.1 hregular, Ls, hreached.keep hn.1⟩
    | false =>
        rw [hempty] at hregular
        have hemptied : Emptied filters root s s' n m Ls fs bs m.position :=
          ⟨hreached, hn.1, hn.2, htaken, hlength, fun hnil => by simp [hnil] at hempty, hregular⟩
        exact ⟨hemptied.became, _, hemptied.inserts⟩

end Stencil.Node
