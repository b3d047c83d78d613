/-
**Trees as they are rendered.**

Preparing a tree moves calls out of expressions and adds binds and overridden blocks, but expressions
stay expressions: where a statement names a template or calls a macro, nothing is run but what is
called.  All parts of a tree play the roles that they played before.

Main definitions:

* `Stencil.Node.Tidy`, `Stencil.Node.IsTidy` — a node that names a template or calls a macro by an
  expression, and a tree of such nodes;
* `Stencil.Node.Neat` — a tidy node that has expressions for defaults;
* `Stencil.Node.IsRegular` — a tree of neat nodes that is well shaped;
* `Stencil.Node.Replaces` — a tree that takes the place of another.

Main results:

* `Stencil.Node.Parsed.regular` — trees that were read are tidy and well shaped;
* `Stencil.Node.prepared_replaces` — **what was prepared takes the place of what was read**;
* `Stencil.Template.build_regular` — what a source is compiled to is tidy and well shaped.
-/

import Stencil.Proofs.Syntax.Rewriting
import Stencil.Proofs.Syntax.Statements
import Stencil.Template

set_option autoImplicit false

namespace Stencil

namespace Node

/-! ### Tidy trees -/

/-- A node that names a template or calls something by an expression. -/
def Tidy : Node → Prop
  | call _ callee arguments => callee.Term ∧ arguments.Term
  | embed _ template _ | extend _ template | importAll _ template _ _
  | importNames _ template _ _ => template.Term
  | _ => True

/-- A tree in which templates are named and macros called by expressions. -/
def IsTidy (n : Node) : Prop := n.Everywhere Tidy

/-- A tidy node, the parameters of which have expressions for their defaults if it declares a macro. -/
def Neat : Node → Prop
  | definition _ _ _ parameters _ => parameters.Term
  | n => n.Tidy

theorem Neat.tidy {n : Node} (h : n.Neat) : n.Tidy := by
  cases n with
  | definition => trivial
  | _ => exact h

/-- A tree in which templates are named, macros called and defaults given by expressions, and all parts
of nodes can be there for what they are. -/
def IsRegular (n : Node) : Prop := n.Everywhere fun m => m.Neat ∧ m.isFormed = true

/-- Trees that were read are tidy and well shaped. -/
theorem Parsed.regular {n : Node} (h : n.Parsed) : n.IsRegular := by
  refine h.mono fun m ⟨hm, hformed⟩ => ⟨?_, hformed⟩
  cases m with
  | importAll | importNames => exact hm.1
  | definition => exact hm.2
  | call | embed | extend => exact hm
  | _ => trivial

theorem isRegular_iff {n : Node} :
    n.IsRegular ↔ (n.Neat ∧ n.isFormed = true) ∧ ∀ c ∈ n.children, c.IsRegular := everywhere_iff

theorem IsRegular.tidy {n : Node} (h : n.IsRegular) : n.IsTidy := h.mono fun _ hm => hm.1.tidy

theorem IsRegular.shaped {n : Node} (h : n.IsRegular) : n.Shaped := h.mono fun _ hm => hm.2

theorem IsRegular.child {n c : Node} (h : n.IsRegular) (hc : c ∈ n.children) : c.IsRegular :=
  (isRegular_iff.1 h).2 c hc

theorem isRegular_symbol (p : Position) (name : String) : (symbol p name).IsRegular :=
  isRegular_iff.2 ⟨⟨trivial, rfl⟩, fun _ h => by simp [children, fields] at h⟩

/-- Statements one after the other. -/
theorem isRegular_sequence {p : Position} {ns : List Node}
    (h : ∀ n ∈ ns, n.IsRegular ∧ n.plays .member = true) : (sequence p ns).IsRegular :=
  isRegular_iff.2 ⟨⟨trivial, by
    simpa [isFormed, isWhole, parts, eachAs, sequence] using fun n hn => (h n hn).2⟩,
    by simpa [children, fields, Field.nodes, sequence] using fun n hn => (h n hn).1⟩

theorem isRegular_members {n : Node} (h : n.IsRegular) : ∀ m ∈ n.members, m.IsRegular := by
  cases n with
  | group kind p ns =>
      exact fun m hm => h.child (by simpa [children, fields, Field.nodes, members] using hm)
  | _ => exact fun m hm => by simp [members] at hm

/-! ### What replaces a tree -/

/-- What replaces a tree is a term if it was one, can be there for what it was, and is regular. -/
structure Replaces (n n' : Node) : Prop where
  term : n.Term → n'.Term
  plays : ∀ r, n.plays r = true → n'.plays r = true
  regular : n'.IsRegular

theorem Replaces.refl {n : Node} (h : n.IsRegular) : Replaces n n := ⟨id, fun _ => id, h⟩

theorem Replaces.trans {n m k : Node} (h : Replaces n m) (h' : Replaces m k) : Replaces n k :=
  ⟨fun hn => h'.term (h.term hn), fun r hn => h'.plays r (h.plays r hn), h'.regular⟩

/-- A node whose parts were replaced replaces it. -/
theorem Parts.replaces {n n' : Node} (hn : n.IsRegular) (h : Parts Replaces n n') :
    Replaces n n' := by
  have hkind : n'.isTerm = n.isTerm ∧ n'.isApart = n.isApart := by
    cases h with
    | @definition p role name a b a' b' ha hb => cases role <;> exact ⟨rfl, rfl⟩
    | _ => exact ⟨rfl, rfl⟩
  have hplays : ∀ c c' : Node, Replaces c c' → ∀ r, c.plays r = true → c'.plays r = true :=
    fun _ _ hrel => hrel.plays
  refine ⟨fun hterm => ?_, fun r => h.plays hplays,
    isRegular_iff.2 ⟨⟨?_, h.isFormed hplays hn.self.2⟩, fun c' hc' => ?_⟩⟩
  · refine term_iff.2 ⟨hkind.1 ▸ (term_iff.1 hterm).1, fun hapart c' hc' => ?_⟩
    obtain ⟨c, hc, hrel⟩ := h.mem c' hc'
    exact hrel.term (hterm.child (hkind.2 ▸ hapart) hc)
  · have hself := hn.self.1
    cases h with
    | call ha hb => exact ⟨ha.term hself.1, hb.term hself.2⟩
    | extend h | embed h | importAll h | importNames h => exact h.term hself
    | definition ha hb => exact ha.term hself
    | _ => trivial
  · obtain ⟨c, _, hrel⟩ := h.mem c' hc'
    exact hrel.regular

theorem not_term {n : Node} (h : n.isTerm = false) : ¬n.Term := by
  intro hterm
  have hself := hterm n (mem_level_self n)
  rw [h] at hself
  cases hself

/-- Whether a node is a call of any kind. -/
def isCall : Node → Bool
  | call _ _ _ | filter _ _ _ | tagCall _ _ _ _ => true
  | _ => false

/-- A name can be there for whatever a call can be there for. -/
theorem plays_symbol {n : Node} (hn : n.isCall = true) (p : Position) (name : String) (r : Role)
    (h : n.plays r = true) : (symbol p name).plays r = true := by
  cases n with
  | call | filter | tagCall => cases r <;> first | rfl | cases h
  | _ => cases hn

/-- Statements one after the other can be there for whatever one of them can be there for. -/
theorem plays_sequence {n : Node} (hn : n.isStatement = true) (hterm : n.isTerm = false)
    (p : Position) (ns : List Node) (r : Role) (h : n.plays r = true) :
    (sequence p ns).plays r = true := by
  cases n with
  | group kind =>
      cases kind with
      | root | output => cases r <;> first | rfl | cases h
      | sequence => cases hterm
      | array | dict | keywords => cases hn
  | definition p role =>
      cases role with
      | named => cases r <;> first | rfl | cases h
      | caller => cases hn
  | branch | loop | assign | block | overridden | extend | embed | importAll | importNames | bind =>
      cases r <;> first | rfl | cases h
  | _ => cases hn

/-- A placeholder takes the place of a call. -/
theorem Replaces.placeholder {n n' : Node} (h : Replaces n n') (hcall : n'.isCall = true)
    (p : Position) (name : String) : Replaces n (.symbol p name) where
  term _ := term_iff.2 ⟨rfl, fun _ _ hc => by simp [children, fields] at hc⟩
  plays r hr := plays_symbol hcall p name r (h.plays r hr)
  regular := isRegular_symbol p name

/-- A rewriting keeps trees regular if what it replaces nodes with takes their place. -/
theorem rewrite_replaces {σ : Type} (r : Rewriter σ) (henter : ∀ n m, r.enter n ≠ .replace m)
    (hleave : ∀ n n' s, Replaces n n' → Replaces n ((r.leave n' s).1.getD n')) {n : Node}
    (hn : n.IsRegular) (s : σ) : Replaces n (rewrite r n s).1.result :=
  (rewrite_related (P := IsRegular) (I := fun _ : σ => True) r (fun _ _ h hc => h.child hc)
    (fun _ hn _ => .refl hn) henter
    (fun n n' s hn _ _ hparts => ⟨hleave n n' s (hparts.replaces hn), trivial⟩) hn trivial).1

/-! ### Calls that may suspend -/

theorem collector_leave (filters : List String) (n : Node) (s : Lifted) :
    (collector filters).leave n s =
      if n.mayCallAsync filters then
        (some (.symbol n.position (callPlaceholder s.next)),
          ⟨s.next + 1, s.binds ++ [.bind n.position n (.symbol n.position (callPlaceholder s.next))]⟩)
      else (none, s) := by
  dsimp only [collector]
  split <;> rfl

theorem isCall_of_mayCallAsync {filters : List String} {n : Node}
    (h : n.mayCallAsync filters = true) : n.isCall = true := by
  cases n with
  | filter | tagCall => rfl
  | _ => cases h

/-- What is bound before a statement is a statement. -/
def RegularBinds (binds : List Node) : Prop := ∀ b ∈ binds, b.IsRegular ∧ b.plays .member = true

/-- Taking calls out of an expression leaves an expression, and the calls are regular. -/
theorem collector_replaces (filters : List String) {n : Node} (hn : n.IsRegular) {s : Lifted}
    (hs : RegularBinds s.binds) :
    Replaces n (rewrite (collector filters) n s).1.result ∧
      RegularBinds (rewrite (collector filters) n s).2.binds := by
  refine rewrite_related (P := IsRegular) (I := fun s : Lifted => RegularBinds s.binds)
    (collector filters) (fun _ _ h hc => h.child hc) (fun n hn _ => .refl hn) ?_ ?_ hn hs
  · intro n m h
    dsimp only [collector] at h
    split at h <;> cases h
  · intro n n' s hn hs _ hparts
    have hrep := hparts.replaces hn
    rw [collector_leave]
    split
    · rename_i hasync
      have hcall := isCall_of_mayCallAsync hasync
      refine ⟨hrep.placeholder hcall _ _,
        List.forall_mem_append.2 ⟨hs, List.forall_mem_singleton.2 ⟨?_, rfl⟩⟩⟩
      refine isRegular_iff.2 ⟨⟨trivial, ?_⟩, fun c hc => ?_⟩
      · -- an extension is never called, so a call that is lifted has a value
        have hvalue : n'.hasValue = true := by
          cases n' with
          | filter => rfl
          | tagCall =>
              have hformed := (isFormed_iff.1 hrep.regular.self.2).1
              cases hformed
          | _ => cases hasync
        simp [isFormed, isWhole, parts, plays, hvalue, isSymbol, asSymbol?]
      · have hc : c = n' ∨ c = symbol n'.position (callPlaceholder s.next) := by
          simpa [children, fields, Field.nodes] using hc
        rcases hc with rfl | rfl
        · exact hrep.regular
        · exact isRegular_symbol _ _
    · exact ⟨hrep, hs⟩

/-- The expressions of a statement with the calls taken out of them. -/
theorem mapLiftable_parts {σ : Type} {R : Node → Node → Prop} {I : σ → Prop}
    {f : Node → StateM σ (Rewritten Node)} {n : Node}
    (h : ∀ c ∈ n.children, ∀ s, I s → R c (f c s).1.result ∧ I (f c s).2)
    (hsame : ∀ c ∈ n.children, R c c) {s : σ} (hs : I s) :
    Parts R n (mapLiftable f n s).1.result ∧ I (mapLiftable f n s).2 := by
  have hoption : ∀ {o : Option Node}, (∀ c ∈ o.toList, c ∈ n.children) → Option.Rel R o o := by
    intro o ho
    cases o with
    | none => exact .none
    | some c => exact .some (hsame c (ho c (by simp)))
  unfold mapLiftable
  split
  · rename_i p a
    have ha : List.Forall₂ R a (mapAll f a s).1.result ∧ I (mapAll f a s).2 :=
      mapAll_related (fun c hc => h c (by simp [children, fields, Field.nodes, hc])) hs
    exact ⟨.group ha.1, ha.2⟩
  · rename_i p a b c
    have hb := h b (by simp [children, fields, Field.nodes]) s hs
    refine ⟨.assign ?_ (.some hb.1) (hoption ?_), hb.2⟩
    · exact List.forall₂_same.2 fun c hc => hsame c (by simp [children, fields, Field.nodes, hc])
    · simp +contextual [children, fields, Field.nodes]
  · rename_i p m a b c d
    have ha := h a (by simp [children, fields, Field.nodes]) s hs
    refine ⟨.loop ha.1 (hsame _ ?_) (hsame _ ?_) (hoption ?_), ha.2⟩ <;>
      simp +contextual [children, fields, Field.nodes]
  · rename_i p t a b c
    have ha := h a (by simp [children, fields, Field.nodes]) s hs
    refine ⟨.branch ha.1 (hsame _ ?_) (hoption ?_), ha.2⟩ <;>
      simp +contextual [children, fields, Field.nodes]
  · rename_i p t a b
    have ha := h a (by simp [children, fields, Field.nodes]) s hs
    refine ⟨.tagCall ha.1 ?_, ha.2⟩
    exact List.forall₂_same.2 fun c hc => hsame c (by simp [children, fields, Field.nodes, hc])
  · exact ⟨.of_same hsame, hs⟩

/-- No calls are lifted from anything but a statement that is no list. -/
theorem mapLiftable_eq_pure {σ : Type} {f : Node → StateM σ (Rewritten Node)} {n : Node}
    (hwhole : n.isWhole = true) (h : n.isStatement = true → n.isTerm = true) :
    mapLiftable f n = pure (.unchanged n) := by
  cases n with
  | group kind p ns =>
      cases kind with
      | output => cases h rfl
      | _ => rfl
  | branch | loop | assign => cases h rfl
  | tagCall => cases hwhole
  | _ => rfl

/-- What `lift?` makes of a statement. -/
theorem lift?_eq (filters : List String) (n : Node) (next : Nat) :
    lift? filters n next =
      let (lifted, calls) := mapLiftable (rewrite (collector filters)) n ⟨next, []⟩
      (if calls.binds.isEmpty then none
        else some (sequence n.position (calls.binds ++ [lifted.result])), calls.next) := by
  change (match mapLiftable (rewrite (collector filters)) n ⟨next, []⟩ with
    | (lifted, calls) => (do
        set calls.next
        if calls.binds.isEmpty then return none
        else return some (sequence n.position (calls.binds ++ [lifted.result])) :
          StateM Nat (Option Node)) next) = _
  rcases mapLiftable (rewrite (collector filters)) n ⟨next, []⟩ with ⟨lifted, calls⟩
  dsimp only
  cases calls.binds.isEmpty <;> rfl

/-- What a statement becomes when its calls are lifted takes its place. -/
theorem lifting_replaces (filters : List String) {n : Node} (hn : n.IsRegular) (next : Nat) :
    Replaces n (rewrite (lifting filters) n next).1.result := by
  refine rewrite_replaces (lifting filters) (fun _ _ h => by cases h) (fun n n' next hrep => ?_) hn next
  change Replaces n ((lift? filters n' next).1.getD n')
  rw [lift?_eq]
  have hmap := mapLiftable_parts (f := rewrite (collector filters)) (R := Replaces) (n := n')
    (I := fun s : Lifted => RegularBinds s.binds)
    (fun c hc s hs => collector_replaces filters (hrep.regular.child hc) hs)
    (fun c hc => .refl (hrep.regular.child hc)) (s := ⟨next, []⟩) (fun _ h => by simp at h)
  rcases hlift : mapLiftable (rewrite (collector filters)) n' ⟨next, []⟩ with ⟨lifted, calls⟩
  rw [hlift] at hmap
  dsimp only
  split
  · exact hrep
  · rename_i hbinds
    -- calls were lifted, so they were lifted from a statement
    have hstatement : n'.isStatement = true ∧ n'.isTerm = false := by
      by_contra hnone
      have hunchanged : n'.isStatement = true → n'.isTerm = true := fun hs =>
        Bool.eq_true_of_not_eq_false fun ht => hnone ⟨hs, ht⟩
      rw [mapLiftable_eq_pure (isFormed_iff.1 hrep.regular.self.2).1 hunchanged] at hlift
      cases hlift
      exact hbinds rfl
    have hlifted := hmap.1.replaces hrep.regular
    exact {
      term := fun hterm => absurd (hrep.term hterm) (not_term hstatement.2)
      plays := fun r hr => plays_sequence hstatement.1 hstatement.2 _ _ r (hrep.plays r hr)
      regular := isRegular_sequence (List.forall_mem_append.2 ⟨hmap.2, List.forall_mem_singleton.2
        ⟨hlifted.regular, hlifted.plays .member (plays_member (.inl hstatement.1))⟩⟩) }

/-! ### Overridden blocks -/

theorem isCall_of_isSuperCall {n : Node} (h : n.isSuperCall = true) : n.isCall = true := by
  cases n with
  | call => rfl
  | _ => cases h

theorem superCalls_replaces (p : Position) (name : String) {n : Node} (hn : n.IsRegular) :
    Replaces n (rewrite (superCalls (symbol p name)) n ()).1.result := by
  refine rewrite_replaces (superCalls (symbol p name)) (fun n m h => ?_) (fun n n' _ hrep => ?_) hn ()
  · dsimp only [superCalls] at h
    split at h <;> cases h
  · change Replaces n ((if n'.isSuperCall then some (symbol p name) else none).getD n')
    split
    · rename_i hsuper
      exact hrep.placeholder (isCall_of_isSuperCall hsuper) p name
    · exact hrep

/-- A block in which the overridden block is rendered first. -/
theorem liftSuper?_eq (p : Position) (name : String) (body : Node) (next : Nat) :
    liftSuper? (.block p name body) next =
      let target := symbol p (superPlaceholder next)
      let inner := (rewrite (superCalls target) body ()).1
      if inner.changed then
        (some (.block p name (sequence inner.result.position
          (.overridden p name target :: match inner.result with
            | group .sequence _ members => members
            | other => [other]))), next + 1)
      else (none, next) := by
  dsimp only [liftSuper?]
  change (ite (rewrite (superCalls (symbol p (superPlaceholder next))) body ()).1.changed _ _ :
    StateM Nat (Option Node)) next = _
  cases (rewrite (superCalls (symbol p (superPlaceholder next))) body ()).1.changed <;> rfl

/-- The statements of a body. -/
theorem IsRegular.body {n : Node} (h : n.IsRegular) (hstatement : n.plays .statement = true) :
    ∀ m ∈ (match n with | group .sequence _ members => members | other => [other]),
      m.IsRegular ∧ m.plays .member = true := by
  split
  · rename_i p members
    exact fun m hm => ⟨isRegular_members h m hm, h.shaped.part (List.mem_map.2 ⟨m, hm, rfl⟩)⟩
  · exact List.forall_mem_singleton.2 ⟨h, plays_member (.inl hstatement)⟩

/-- What a block becomes when the calls of the overridden block are lifted takes its place. -/
theorem superLifting_replaces {n : Node} (hn : n.IsRegular) (next : Nat) :
    Replaces n (rewrite superLifting n next).1.result := by
  refine rewrite_replaces superLifting (fun _ _ h => by cases h) (fun n n' next hrep => ?_) hn next
  change Replaces n ((liftSuper? n' next).1.getD n')
  cases n' with
  | block p name body =>
      rw [liftSuper?_eq]
      dsimp only
      split
      · have hbody : body.IsRegular := hrep.regular.child (by simp [children, fields, Field.nodes])
        have hinner := superCalls_replaces p (superPlaceholder next) hbody
        have hstatement := hinner.plays .statement (hrep.regular.shaped.part List.mem_cons_self)
        refine ⟨fun hterm => absurd (hrep.term hterm) (not_term rfl),
          fun r hr => hrep.plays r hr, isRegular_iff.2 ⟨⟨trivial, rfl⟩, ?_⟩⟩
        refine List.forall_mem_singleton.2 (isRegular_sequence (List.forall_mem_cons.2 ⟨?_, ?_⟩))
        · refine ⟨isRegular_iff.2 ⟨⟨trivial, rfl⟩, ?_⟩, rfl⟩
          exact List.forall_mem_singleton.2 (isRegular_symbol _ _)
        · exact hinner.regular.body hstatement
      · exact hrep
  | _ => exact hrep

/-! ### Statements that may suspend -/

theorem promotion_replaces {n : Node} (hn : n.IsRegular) :
    Replaces n (rewrite promotion n ()).1.result := by
  refine rewrite_replaces promotion (fun _ _ h => by cases h) (fun n n' _ hrep => ?_) hn ()
  change Replaces n (n'.promote?.getD n')
  -- only the mark changes
  have hmarked : ∀ {m m' : Node}, Replaces n m → m.isTerm = false → m'.Neat →
      m'.parts = m.parts → m'.isWhole = m.isWhole → m'.children = m.children →
        (∀ r, m.plays r = true → m'.plays r = true) → Replaces n m' := by
    intro m m' hm hterm hneat hparts hwhole hchildren hplays
    refine ⟨fun h => absurd (hm.term h) (not_term hterm), fun r hr => hplays r (hm.plays r hr),
      isRegular_iff.2 ⟨⟨hneat, ?_⟩, hchildren ▸ (isRegular_iff.1 hm.regular).2⟩⟩
    rw [isFormed, hparts, hwhole]
    exact hm.regular.self.2
  unfold promote?
  split
  · split
    · exact hmarked hrep rfl trivial rfl rfl rfl fun r hr => hr
    · exact hrep
  · split
    · exact hmarked hrep rfl trivial rfl rfl rfl fun r hr => hr
    · exact hrep
  · exact hrep

/-- **What was prepared takes the place of what was read.** -/
theorem prepared_replaces (filters : List String) {root : Node} (h : root.IsRegular) :
    Replaces root (prepared filters root).result := by
  have hfirst := lifting_replaces filters h 0
  have hsecond := superLifting_replaces hfirst.regular 0
  exact (hfirst.trans hsecond).trans (promotion_replaces hsecond.regular)

end Node

/-! ### Compiled templates -/

/-- The definitions of blocks are those of the nodes that are blocks, in the template that they are
read for. -/
theorem Template.mem_defineBlocks {template : String} {number : Nat} {known : List String}
    {ns : List Node} {blocks : List BlockDef}
    (h : Template.defineBlocks template number known ns = .ok blocks) :
    ∀ b ∈ blocks, b.template = template ∧ ∃ p, .block p b.name b.body ∈ ns := by
  induction ns generalizing number known blocks with
  | nil =>
      cases h
      exact fun b hb => by simp at hb
  | cons n rest ih =>
      have hrest : ∀ {number known blocks}, Template.defineBlocks template number known rest =
          .ok blocks → ∀ b ∈ blocks,
            b.template = template ∧ ∃ p, .block p b.name b.body ∈ n :: rest := by
        intro number known blocks h b hb
        obtain ⟨htemplate, p, hp⟩ := ih h b hb
        exact ⟨htemplate, p, List.mem_cons_of_mem _ hp⟩
      cases n with
      | block p name body =>
          obtain ⟨-, more, hmore, rfl⟩ := Template.defineBlocks_block_eq_ok_iff.1 h
          intro b hb
          rcases List.mem_cons.1 hb with rfl | hb
          · exact ⟨rfl, p, List.mem_cons_self⟩
          · exact hrest hmore b hb
      | _ => exact hrest h

/-- What a source is compiled to: a tree that was read and prepared, and the blocks in it. -/
theorem Template.build_eq {config : Config} {filters : List String} {name source : String}
    {number : Nat} {c : Compiled} (h : Template.build config [] filters name source number = .ok c) :
    ∃ root : Node, root.Parsed ∧ (∃ p ns, root = .group .root p ns) ∧
      c.root = (Node.prepared filters root).result ∧
        ∀ b ∈ c.blocks, b.template = name ∧
          ∃ p, .block p b.name b.body ∈ c.root.walk fun _ => false := by
  obtain ⟨root, hread, hprepared, hblocks⟩ := build_eq_ok_iff.1 h
  have hparsed := Node.ofSource_parsed config source
  rw [hread] at hparsed
  refine ⟨root, hparsed.1, hparsed.2, hprepared, fun b hb => ?_⟩
  obtain ⟨htemplate, p, hp⟩ := mem_defineBlocks hblocks b hb
  exact ⟨htemplate, p, List.mem_of_mem_filter hp⟩

/-- What a source is compiled to is tidy and well shaped. -/
theorem Template.build_regular {config : Config} {filters : List String} {name source : String}
    {number : Nat} {c : Compiled} (h : Template.build config [] filters name source number = .ok c) :
    c.root.IsRegular ∧ ∀ b ∈ c.blocks, b.body.IsRegular := by
  obtain ⟨root, hparsed, _, hroot, hblocks⟩ := build_eq h
  have hregular : c.root.IsRegular := hroot ▸ (Node.prepared_replaces filters hparsed.regular).regular
  refine ⟨hregular, fun b hb => ?_⟩
  obtain ⟨_, p, hp⟩ := hblocks b hb
  exact (hregular.below hp).child (by simp [Node.children, Node.fields, Node.Field.nodes])

theorem Template.build_tidy {config : Config} {filters : List String} {name source : String}
    {number : Nat} {c : Compiled} (h : Template.build config [] filters name source number = .ok c) :
    c.root.IsTidy ∧ ∀ b ∈ c.blocks, b.body.IsTidy :=
  ⟨(build_regular h).1.tidy, fun b hb => ((build_regular h).2 b hb).tidy⟩

/-- What a source is compiled to can be run. -/
theorem Template.build_statement {config : Config} {filters : List String} {name source : String}
    {number : Nat} {c : Compiled} (h : Template.build config [] filters name source number = .ok c) :
    c.root.isStatement = true ∧ ∀ b ∈ c.blocks, b.body.isStatement = true := by
  obtain ⟨root, hparsed, ⟨p, ns, rfl⟩, hroot, hblocks⟩ := build_eq h
  refine ⟨?_, fun b hb => ?_⟩
  · rw [hroot]
    exact (Node.prepared_replaces filters hparsed.regular).plays .statement rfl
  · obtain ⟨_, p, hp⟩ := hblocks b hb
    have hblock : (Node.block p b.name b.body).Shaped := (build_regular h).1.shaped.below hp
    exact hblock.part List.mem_cons_self

end Stencil
