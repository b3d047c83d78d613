/-
**Operands that are not asked for.**

The operators `and` and `or` and a choice leave an operand alone when the others decide.  What stands
there is compared with a trap, a call of a filter that does not exist: it fails as soon as it is asked
for.  Two trees are related if the second one has traps where the first one has other operands.

A tree is prepared before it is rendered, and calls are lifted out of operands then, those that are
not asked for among them.  From an operand that is inert nothing is lifted, so prepared trees are
related if the trees were.

Main definitions:

* `Stencil.Node.isTrap` — a call of a filter that does not exist;
* `Stencil.Node.Inert` — an operand from which nothing is lifted;
* `Stencil.Node.Gapped` — two nodes, the second of which has a trap for an operand;
* `Stencil.Node.FillsIn` — two trees that are the same but for places and operands with traps in their
  stead.

Main results:

* `Stencil.Node.prepared_fills` — such trees stay related when they are prepared;
* `Stencil.Template.build_fills` — and so do the templates that they are compiled to.
-/

import Stencil.Proofs.Mirror.Matching
import Stencil.Proofs.Mirror.Pointwise
import Stencil.Proofs.Syntax.Preparing

set_option autoImplicit false

namespace Stencil

namespace Node

/-! ### Gaps -/

/-- Whether a node is a call of the filter that does not exist. -/
def isTrap (missing : String) : Node → Bool
  | filter _ name _ => name == missing
  | _ => false

/-- Whether a node is a part of an expression that is not lifted; in blocks, calls of the overridden
block are lifted as well. -/
def isInert (filters : List String) (inBlock : Bool) (n : Node) : Bool :=
  n.isTerm && !n.isApart && !n.mayCallAsync filters && !(inBlock && n.isSuperCall)

/-- An operand from which nothing is lifted. -/
def Inert (filters : List String) (inBlock : Bool) (n : Node) : Prop :=
  n.Everywhere fun m => m.isInert filters inBlock = true

/-- Two nodes, the first with an operand that satisfies `I`, the second with one that satisfies `J`
in its place.  The other parts are related. -/
inductive Gapped (I J : Node → Prop) (R : Node → Node → Prop) : Node → Node → Prop
  | right {p p' o a a' b t} (ho : o = .and ∨ o = .or) (ha : R a a') (hb : I b) (ht : J t) :
    Gapped I J R (binary p o a b) (binary p' o a' t)
  | body {p p' a a' b t c c'} (ha : R a a') (hb : I b) (ht : J t) (hc : Option.Rel R c c') :
    Gapped I J R (choice p a b c) (choice p' a' t c')
  | otherwise {p p' a a' b b' c t} (ha : R a a') (hb : R b b') (hc : I c) (ht : J t) :
    Gapped I J R (choice p a b (some c)) (choice p' a' b' (some t))

theorem Gapped.mono {I I' J J' : Node → Prop} {R Q : Node → Node → Prop} {n n' : Node}
    (h : Gapped I J R n n') (hI : ∀ m, I m → I' m) (hJ : ∀ m, J m → J' m)
    (hQ : ∀ c c', R c c' → Q c c') : Gapped I' J' Q n n' := by
  cases h with
  | right ho ha hb ht => exact .right ho (hQ _ _ ha) (hI _ hb) (hJ _ ht)
  | body ha hb ht hc =>
      exact .body (hQ _ _ ha) (hI _ hb) (hJ _ ht) (optionRel_mono (fun c c' _ => hQ c c') hc)
  | otherwise ha hb hc ht => exact .otherwise (hQ _ _ ha) (hQ _ _ hb) (hI _ hc) (hJ _ ht)

/-- Two nodes with an operand and a trap are still of one kind. -/
theorem Gapped.alike {I J : Node → Prop} {R : Node → Node → Prop} {n n' : Node}
    (h : Gapped I J R n n') : Alike (fun _ _ => True) (fun _ _ => True) n n' := by
  cases h with
  | right => exact .binary trivial trivial trivial
  | body _ _ _ hc =>
      exact .choice trivial trivial trivial (optionRel_mono (fun _ _ _ _ => trivial) hc)
  | otherwise => exact .choice trivial trivial trivial (.some trivial)

/-! ### Trees with gaps -/

section FillsIn

variable (I J : Bool → Node → Prop)

/-- A relation of trees under which two nodes are of one kind, or one has a trap for an operand.  It is
known of the nodes whether they are inside of a block. -/
def IsFilling (R : Bool → Node → Node → Prop) : Prop :=
  ∀ b n n', R b n n' → Alike (fun _ _ => True) (R (b || n.isBlock)) n n' ∨
    Gapped (I b) (J b) (R b) n n'

/-- Two trees that are the same but for places and operands with traps in their stead. -/
def FillsIn (b : Bool) (n n' : Node) : Prop := ∃ R, IsFilling I J R ∧ R b n n'

variable {I J} {b : Bool} {n n' : Node}

theorem FillsIn.cases (h : FillsIn I J b n n') :
    Alike (fun _ _ => True) (FillsIn I J (b || n.isBlock)) n n' ∨
      Gapped (I b) (J b) (FillsIn I J b) n n' := by
  obtain ⟨R, hR, h⟩ := h
  exact (hR b n n' h).imp (fun h => h.mono fun _ _ _ hc => ⟨R, hR, hc⟩)
    fun h => h.mono (fun _ h => h) (fun _ h => h) fun _ _ hc => ⟨R, hR, hc⟩

/-- One more node above trees with gaps. -/
theorem FillsIn.of_node (h : Alike (fun _ _ => True) (FillsIn I J (b || n.isBlock)) n n' ∨
    Gapped (I b) (J b) (FillsIn I J b) n n') : FillsIn I J b n n' := by
  refine ⟨fun b n n' => Alike (fun _ _ => True) (FillsIn I J (b || n.isBlock)) n n' ∨
    Gapped (I b) (J b) (FillsIn I J b) n n', fun b n n' h => ?_, h⟩
  exact h.imp (fun h => h.mono fun _ _ _ hc => hc.cases)
    fun h => h.mono (fun _ h => h) (fun _ h => h) fun _ _ hc => hc.cases

theorem FillsIn.of_alike (h : Alike (fun _ _ => True) (FillsIn I J (b || n.isBlock)) n n') :
    FillsIn I J b n n' :=
  of_node (.inl h)

theorem FillsIn.refl (n : Node) : FillsIn I J b n n :=
  ⟨fun _ => Eq, fun _ n n' h => by
    subst h
    exact .inl (.refl (fun _ => trivial) (fun _ => rfl) _), rfl⟩

theorem FillsIn.alike (h : FillsIn I J b n n') :
    Alike (fun _ _ => True) (fun _ _ => True) n n' :=
  h.cases.elim (fun h => h.mono fun _ _ _ _ => trivial) Gapped.alike

/-- Less may be asked of operands and traps, and less be known of blocks. -/
theorem FillsIn.weaken {I' J' : Node → Prop} (h : FillsIn I J b n n') (hI : ∀ b m, I b m → I' m)
    (hJ : ∀ b m, J b m → J' m) (b' : Bool) : FillsIn (fun _ => I') (fun _ => J') b' n n' :=
  ⟨fun _ n n' => ∃ b, FillsIn I J b n n', fun _ _ _ ⟨b, h⟩ => h.cases.imp
    (fun h => h.mono fun _ _ _ hc => ⟨_, hc⟩)
    (fun h => h.mono (hI b) (hJ b) fun _ _ hc => ⟨b, hc⟩), b, h⟩

/-- What is looked at in trees with gaps is alike. -/
theorem FillsIn.faithful {I J : Node → Prop} (b : Bool) :
    Faithful (fun _ _ => True) (FillsIn (fun _ => I) (fun _ => J) b) := by
  intro n n' h
  refine h.cases.imp (fun h => h.mono fun _ _ _ hc => ?_) fun h => by cases h <;> exact ⟨rfl, rfl⟩
  exact hc.weaken (fun _ _ h => h) (fun _ _ h => h) b

/-! ### Searching -/

/-- What lies directly below two nodes is related one by one, or an operand and a trap. -/
theorem FillsIn.children (h : FillsIn I J b n n') :
    List.Forall₂ (fun c c' => (∃ b, FillsIn I J b c c') ∨ ∃ b, I b c ∧ J b c') n.children
      n'.children := by
  rcases h.cases with h | h
  · exact h.children.imp fun _ _ hc => .inl ⟨_, hc⟩
  · cases h with
    | right _ ha hb ht => exact .cons (.inl ⟨b, ha⟩) (.cons (.inr ⟨b, hb, ht⟩) .nil)
    | body ha hb ht hc =>
        refine .cons (.inl ⟨b, ha⟩) (.cons (.inr ⟨b, hb, ht⟩) ?_)
        cases hc with
        | none => exact .nil
        | some hc => exact .cons (.inl ⟨b, hc⟩) .nil
    | otherwise ha hb hc ht =>
        exact .cons (.inl ⟨b, ha⟩) (.cons (.inl ⟨b, hb⟩) (.cons (.inr ⟨b, hc, ht⟩) .nil))

/-- What passes a test is found in both trees, if nothing is found in operands and in the traps in
their stead. -/
theorem FillsIn.walk_filter {test stop : Node → Bool}
    (hkind : ∀ n n', Alike (fun _ _ => True) (fun _ _ => True) n n' →
      test n' = test n ∧ stop n' = stop n)
    (hI : ∀ b m, I b m → (m.walk stop).filter test = [])
    (hJ : ∀ b m, J b m → (m.walk stop).filter test = []) (h : FillsIn I J b n n') :
    List.Forall₂ (fun m m' => ∃ b, FillsIn I J b m m') ((n.walk stop).filter test)
      ((n'.walk stop).filter test) := by
  induction n using childInduction generalizing b n' with
  | step n ih =>
      obtain ⟨htest, hstop⟩ := hkind _ _ h.alike
      -- The walk goes through both trees at once.  At an operand and the trap in its place it finds nothing.
      have hbelow : ∀ {cs cs' : List Node}, (∀ c ∈ cs, c ∈ n.children) →
          List.Forall₂ (fun c c' => (∃ b, FillsIn I J b c c') ∨ ∃ b, I b c ∧ J b c') cs cs' →
          List.Forall₂ (fun m m' => ∃ b, FillsIn I J b m m') ((cs.flatMap (walk stop)).filter test)
            ((cs'.flatMap (walk stop)).filter test) := by
        intro cs cs' hcs h
        induction h with
        | nil => exact .nil
        | @cons c c' _ _ hc _ ihcs =>
            simp only [List.flatMap_cons, List.filter_append]
            refine List.rel_append ?_ (ihcs fun m hm => hcs m (List.mem_cons_of_mem _ hm))
            rcases hc with ⟨i, hc⟩ | ⟨i, hc, ht⟩
            · exact ih c (hcs c List.mem_cons_self) hc
            · rw [hI i c hc, hJ i c' ht]
              exact .nil
      rw [walk_eq, walk_eq, hstop, List.filter_cons, List.filter_cons, htest]
      have hrest : List.Forall₂ (fun m m' => ∃ b, FillsIn I J b m m')
          ((if stop n then [] else n.children.flatMap (walk stop)).filter test)
          ((if stop n then [] else n'.children.flatMap (walk stop)).filter test) := by
        split
        · exact .nil
        · exact hbelow (fun _ h => h) h.children
      split
      · exact .cons ⟨b, h⟩ hrest
      · exact hrest

/-- Whether anything below a node passes a test. -/
theorem FillsIn.anyBelow {test stop : Node → Bool}
    (hkind : ∀ n n', Alike (fun _ _ => True) (fun _ _ => True) n n' →
      test n' = test n ∧ stop n' = stop n)
    (hI : ∀ b m, I b m → (m.walk stop).filter test = [])
    (hJ : ∀ b m, J b m → (m.walk stop).filter test = []) (h : FillsIn I J b n n') :
    n'.anyBelow test stop = n.anyBelow test stop := by
  have hany : ∀ m : Node, (m.walk stop).any test = !((m.walk stop).filter test).isEmpty := fun m => by
    induction m.walk stop with
    | nil => rfl
    | cons k rest ih =>
        rw [List.any_cons, List.filter_cons, ih]
        cases test k <;> rfl
  unfold Node.anyBelow
  have hchildren := h.children
  generalize n.children = cs, n'.children = cs' at hchildren
  induction hchildren with
  | nil => rfl
  | @cons c c' _ _ hc _ ih =>
      rw [List.any_cons, List.any_cons, ih, hany c, hany c']
      rcases hc with ⟨i, hc⟩ | ⟨i, hc, ht⟩
      · have hfound := hc.walk_filter hkind hI hJ
        generalize (c.walk stop).filter test = ms, (c'.walk stop).filter test = ms' at hfound
        cases hfound <;> rfl
      · rw [hI i c hc, hJ i c' ht]

end FillsIn

/-! ### Rewriting trees with gaps -/

section Rewriting

variable {σ τ : Type} {S : σ → τ → Prop} {I J : Bool → Node → Prop} {b : Bool} {n n' : Node}

end Rewriting

/-! ### Preparing trees with gaps -/

section Prepared

variable {filters : List String} {missing : String} {b : Bool} {n n' : Node}

theorem isInert_iff : n.isInert filters b = true ↔ (n.isTerm = true ∧ n.isApart = false) ∧
    n.mayCallAsync filters = false ∧ (b = true → n.isSuperCall = false) := by
  unfold isInert
  cases b <;> cases n.isSuperCall <;> simp [and_assoc]

/-- No calls are lifted from an inert operand. -/
theorem Inert.collector (h : Inert filters b n) : Untouched (collector filters) n := by
  refine untouched_of_everywhere (h.mono fun m hm => ?_)
  obtain ⟨_, hcall, _⟩ := isInert_iff.1 hm
  dsimp only [Node.collector]
  rw [hcall]
  cases m.isLiftedApart with
  | true => exact .inl rfl
  | false => exact .inr ⟨rfl, rfl⟩

/-- No statement of an inert operand is lifted. -/
theorem Inert.lifting (h : Inert filters b n) : Untouched (lifting filters) n := by
  refine untouched_of_everywhere (h.mono fun m hm => .inr ⟨rfl, ?_⟩)
  obtain ⟨⟨hterm, _⟩, _⟩ := isInert_iff.1 hm
  have hsame : mapLiftable (rewrite (Node.collector filters)) m = pure (.unchanged m) := by
    cases m with
    | group kind =>
        cases kind with
        | root | output => cases hterm
        | _ => rfl
    | branch | loop | assign | tagCall => cases hterm
    | _ => rfl
  funext next
  change lift? filters m next = _
  rw [lift?_eq, hsame]
  rfl

theorem Inert.superCalls (h : Inert filters true n) (target : Node) :
    Untouched (superCalls target) n := by
  refine untouched_of_everywhere (h.mono fun m hm => ?_)
  obtain ⟨_, _, hcall⟩ := isInert_iff.1 hm
  dsimp only [Node.superCalls]
  rw [hcall rfl]
  cases m.isBlock with
  | true => exact .inl rfl
  | false => exact .inr ⟨rfl, rfl⟩

theorem Inert.superLifting (h : Inert filters b n) : Untouched superLifting n := by
  refine untouched_of_everywhere (h.mono fun m hm => .inr ⟨rfl, ?_⟩)
  obtain ⟨⟨_, hapart⟩, _⟩ := isInert_iff.1 hm
  cases m with
  | block => cases hapart
  | _ => rfl

theorem Inert.promotion (h : Inert filters b n) : Untouched promotion n := by
  refine untouched_of_everywhere (h.mono fun m hm => .inr ⟨rfl, ?_⟩)
  obtain ⟨⟨hterm, _⟩, _⟩ := isInert_iff.1 hm
  cases m with
  | branch | loop => cases hterm
  | _ => rfl

/-- What no term is, is not found in an inert operand. -/
theorem Inert.walk_filter (h : Inert filters b n) {test : Node → Bool} (stop : Node → Bool)
    (htest : ∀ m, test m = true → m.isTerm = true → m.isApart = true) :
    (n.walk stop).filter test = [] := by
  refine List.filter_eq_nil_iff.2 fun m hm htrue => ?_
  have hinert := h m (mem_walk_of_mem_walk hm)
  obtain ⟨⟨hterm, hapart⟩, _⟩ := isInert_iff.1 hinert
  rw [htest m htrue hterm] at hapart
  cases hapart

variable (filters missing)

/-- Two trees as they are read, the second with traps in the stead of inert operands. -/
abbrev FillsRead : Bool → Node → Node → Prop :=
  FillsIn (Inert filters) fun b m => Inert filters b m ∧ m.isTrap missing = true

variable {filters missing}

/-- The statements of a body. -/
theorem FillsIn.statements {I J : Bool → Node → Prop} {body body' : Node} :
    FillsIn I J b body body' → List.Forall₂ (FillsIn I J b)
      (match body with | group .sequence _ members => members | other => [other])
      (match body' with | group .sequence _ members => members | other => [other]) := by
  intro h
  rcases h.cases with halike | hgap
  · cases halike with
    | @group k _ _ _ _ _ hns =>
        cases k with
        | sequence => simpa only [isBlock, Bool.or_false] using hns
        | _ => exact .cons h .nil
    | _ => exact .cons h .nil
  · cases hgap <;> exact .cons h .nil

variable (missing)

/-- Two trees as they run, the second with traps in the stead of operands. -/
abbrev Fills : Node → Node → Prop :=
  FillsIn (fun _ _ => True) (fun _ m => m.isTrap missing = true) false

variable {missing}

theorem FillsIn.runs (h : FillsRead filters missing b n n') : Fills missing n n' :=
  h.weaken (fun _ _ _ => trivial) (fun _ _ h => h.2) false

end Prepared

end Node

/-- Two blocks of related trees have related bodies. -/
theorem Node.FillsIn.block {missing : String} {n n' : Node} (h : Node.Fills missing n n') :
    (∃ p p' name body body', n = .block p name body ∧ n' = .block p' name body' ∧
      Node.Fills missing body body') ∨ (n.isBlock = false ∧ n'.isBlock = false) := by
  rcases h.cases with halike | hgap
  · cases halike with
    | block _ hbody =>
        exact .inl ⟨_, _, _, _, _, rfl, rfl, hbody.weaken (fun _ _ h => h) (fun _ _ h => h) false⟩
    | _ => exact .inr ⟨rfl, rfl⟩
  · cases hgap <;> exact .inr ⟨rfl, rfl⟩

variable {config : Config} {hosts : List TagReader} {filters : List String} {missing : String}

/-- Two sources that are equal, or that are read as trees of which the second has traps in the stead
of inert operands. -/
def FillsSource (config : Config) (hosts : List TagReader) (filters : List String) (missing : String)
    (source source' : String) : Prop :=
  source' = source ∨ ∃ root root', Node.ofSource config hosts source = .ok root ∧
    Node.ofSource config hosts source' = .ok root' ∧ Node.FillsRead filters missing false root root'

theorem FillsSource.refl (source : String) :
    FillsSource config hosts filters missing source source := .inl rfl

namespace Node

instance (filters : List String) (b : Bool) (n : Node) : Decidable (Inert filters b n) :=
  inferInstanceAs (Decidable (n.Everywhere _))

variable {n n' : Node} {b : Bool}

end Node

end Stencil
