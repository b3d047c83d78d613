/-
**Loops that run one after the other.**

A loop that runs its iterations at once is compared with the one that runs them one after the other.  The
two are the same but for the mark.  When trees are prepared, further loops and conditional statements are
marked as such that may wait, and what is marked so depends on the loops inside.  So two trees are related
if they are the same but for places and marks, where iterations run at once in the first tree only if they
do in the second.

Main definitions:

* `Stencil.Node.RunsAs` — two nodes of one kind, but for the marks;
* `Stencil.Node.Remarked` — two trees that are the same but for places and marks;
* `Stencil.SequencedSource` — two sources that are read as such trees, the first without iterations that
  run at once.

Main results:

* `Stencil.Node.prepared_remarked` — such trees stay related when they are prepared;
* `Stencil.Template.build_sequenced` — and so do the templates that they are compiled to.
-/

import Stencil.Proofs.Mirror.Matching
import Stencil.Proofs.Syntax.Preparing

set_option autoImplicit false

namespace Stencil

namespace Node

/-! ### Marks -/

/-- Two nodes of one kind, where conditional statements may be marked differently, and so may loops as
long as both or none run their iterations at once.  The second one does if it is marked so and
iterations that are marked so run `together`. -/
inductive RunsAs (together : Bool) (P : Position → Position → Prop) (R : Node → Node → Prop) :
    Node → Node → Prop
  | alike {n n'} (h : Alike P R n n') (hn : ∀ p m a b c d, n ≠ loop p m a b c d) :
    RunsAs together P R n n'
  | branch {p p' s s' a b c a' b' c'} (hp : P p p') (ha : R a a') (hb : R b b')
    (hc : Option.Rel R c c') : RunsAs together P R (branch p s a b c) (branch p' s' a' b' c')
  | loop {p p' m m' a b c d a' b' c' d'} (hm : m = .all ↔ m' = .all ∧ together = true) (hp : P p p')
    (ha : R a a') (hb : R b b') (hc : R c c') (hd : Option.Rel R d d') :
    RunsAs together P R (loop p m a b c d) (loop p' m' a' b' c' d')

variable {together : Bool} {P : Position → Position → Prop} {R Q : Node → Node → Prop}
  {n n' m k : Node}

namespace RunsAs

theorem of_alike (h : Alike P R n n') : RunsAs true P R n n' := by
  cases h with
  | loop hp ha hb hc hd => exact .loop (by simp) hp ha hb hc hd
  | _ =>
      refine .alike (by constructor <;> assumption) ?_
      rintro _ _ _ _ _ _ ⟨⟩

/-- Equal nodes run alike if iterations at once run so. -/
theorem refl (n : Node) : RunsAs true Eq Eq n n := of_alike (.refl (fun _ => rfl) (fun _ => rfl) n)

theorem mono (h : RunsAs together P R n n') (hQ : ∀ c c', c ∈ n.children → R c c' → Q c c') :
    RunsAs together P Q n n' := by
  cases h with
  | alike h hn => exact .alike (h.mono hQ) hn
  | branch hp ha hb hc =>
      refine .branch hp (hQ _ _ ?_ ha) (hQ _ _ ?_ hb) (optionRel_mono (fun c c' ho => hQ c c' ?_) hc)
      all_goals simp_all [Node.children, fields, Field.nodes]
  | loop hm hp ha hb hc hd =>
      refine .loop hm hp (hQ _ _ ?_ ha) (hQ _ _ ?_ hb) (hQ _ _ ?_ hc)
        (optionRel_mono (fun c c' ho => hQ c c' ?_) hd)
      all_goals simp_all [Node.children, fields, Field.nodes]

theorem children (h : RunsAs together P R n n') : List.Forall₂ R n.children n'.children := by
  cases h with
  | alike h => exact h.children
  | @branch p p' s _ a b c a' b' c' hp ha hb hc =>
      have h : Alike P R (.branch p s a b c) (.branch p' s a' b' c') := .branch hp ha hb hc
      exact h.children
  | @loop p p' m _ a b c d a' b' c' d' _ hp ha hb hc hd =>
      have h : Alike P R (.loop p m a b c d) (.loop p' m a' b' c' d') := .loop hp ha hb hc hd
      exact h.children

theorem flip (h : RunsAs true P R n n') :
    RunsAs true (fun p p' => P p' p) (fun c c' => R c' c) n' n := by
  cases h with
  | alike h => exact of_alike h.flip
  | branch hp ha hb hc => exact .branch hp ha hb (optionRel_flip hc)
  | loop hm hp ha hb hc hd =>
      refine .loop ?_ hp ha hb hc (optionRel_flip hd)
      simpa using hm.symm

theorem trans {together' : Bool} {R' S : Node → Node → Prop}
    (hS : ∀ a b c, R a b → R' b c → S a c) (h : RunsAs together (fun _ _ => True) R n m)
    (h' : RunsAs together' (fun _ _ => True) R' m k) :
    RunsAs (together && together') (fun _ _ => True) S n k := by
  have hoption : ∀ {o o' o''}, Option.Rel R o o' → Option.Rel R' o' o'' → Option.Rel S o o'' :=
    fun ho ho' => optionRel_trans hS ho ho'
  cases h with
  | alike h hn =>
      cases h' with
      | alike h' _ => exact .alike (h.trans (fun _ _ _ _ _ => trivial) hS h') hn
      | branch _ ha' hb' hc' =>
          cases h with
          | branch _ ha hb hc =>
              exact .branch trivial (hS _ _ _ ha ha') (hS _ _ _ hb hb') (hoption hc hc')
      | loop =>
          cases h with
          | loop => exact absurd rfl (hn _ _ _ _ _ _)
  | branch _ ha hb hc =>
      cases h' with
      | alike h' _ =>
          cases h' with
          | branch _ ha' hb' hc' =>
              exact .branch trivial (hS _ _ _ ha ha') (hS _ _ _ hb hb') (hoption hc hc')
      | branch _ ha' hb' hc' =>
          exact .branch trivial (hS _ _ _ ha ha') (hS _ _ _ hb hb') (hoption hc hc')
  | loop hm _ ha hb hc hd =>
      cases h' with
      | alike _ hn' => exact absurd rfl (hn' _ _ _ _ _ _)
      | loop hm' _ ha' hb' hc' hd' =>
          refine .loop ?_ trivial (hS _ _ _ ha ha') (hS _ _ _ hb hb') (hS _ _ _ hc hc') (hoption hd hd')
          rw [hm, hm', Bool.and_eq_true]
          tauto

end RunsAs

/-- Two trees that are the same but for places and the marks of conditional statements and loops.  In
the first one iterations run at once where they do in the second, if that is what such iterations do
(`together`), and nowhere otherwise. -/
def Remarked (together : Bool) (n n' : Node) : Prop :=
  ∃ R, (∀ n n', R n n' → RunsAs together (fun _ _ => True) R n n') ∧ R n n'

namespace Remarked

theorem cases (h : Remarked together n n') :
    RunsAs together (fun _ _ => True) (Remarked together) n n' := by
  obtain ⟨R, hR, h⟩ := h
  exact (hR n n' h).mono fun _ _ _ hc => ⟨R, hR, hc⟩

/-- One more node above such trees. -/
theorem of_node (h : RunsAs together (fun _ _ => True) (Remarked together) n n') :
    Remarked together n n' :=
  ⟨RunsAs together (fun _ _ => True) (Remarked together), fun _ _ h =>
    h.mono fun _ _ _ hc => hc.cases, h⟩

theorem of_alike (h : Alike (fun _ _ => True) (Remarked together) n n')
    (hn : ∀ p m a b c d, n ≠ loop p m a b c d) : Remarked together n n' :=
  of_node (.alike h hn)

theorem refl (n : Node) : Remarked true n n := by
  refine ⟨Eq, fun n n' h => ?_, rfl⟩
  subst h
  exact RunsAs.of_alike (.refl (fun _ => trivial) (fun _ => rfl) n)

theorem symm (h : Remarked true n n') : Remarked true n' n := by
  obtain ⟨R, hR, h⟩ := h
  exact ⟨fun c c' => R c' c, fun _ _ h => (hR _ _ h).flip, h⟩

theorem trans {together' : Bool} (h : Remarked together n m) (h' : Remarked together' m k) :
    Remarked (together && together') n k := by
  obtain ⟨R, hR, h⟩ := h
  obtain ⟨R', hR', h'⟩ := h'
  refine ⟨fun a c => ∃ b, R a b ∧ R' b c, fun a c hac => ?_, m, h, h'⟩
  obtain ⟨b, hab, hbc⟩ := hac
  exact (hR a b hab).trans (fun a b c ha hb => ⟨b, ha, hb⟩) (hR' b c hbc)

/-- What is looked at in such trees is alike. -/
theorem faithful : Faithful (fun _ _ => True) (Remarked together) := by
  intro n n' h
  cases h.cases with
  | alike h => exact .inl h
  | branch | loop => exact .inr ⟨rfl, rfl⟩

/-- Two blocks have related bodies. -/
theorem block (h : Remarked together n n') :
    (∃ p p' name body body', n = .block p name body ∧ n' = .block p' name body' ∧
      Remarked together body body') ∨ (n.isBlock = false ∧ n'.isBlock = false) := by
  cases h.cases with
  | alike h =>
      cases h with
      | block _ hbody => exact .inl ⟨_, _, _, _, _, rfl, rfl, hbody⟩
      | _ => exact .inr ⟨rfl, rfl⟩
  | branch | loop => exact .inr ⟨rfl, rfl⟩

theorem isBlock (h : Remarked together n n') : n'.isBlock = n.isBlock := by
  rcases h.block with ⟨_, _, _, _, _, rfl, rfl, -⟩ | ⟨hn, hn'⟩
  · rfl
  · rw [hn, hn']

/-- The blocks of such trees are related one by one. -/
theorem findAll (h : Remarked together n n') :
    List.Forall₂ (Remarked together) (n.findAll Node.isBlock) (n'.findAll Node.isBlock) := by
  unfold Node.findAll
  induction n using childInduction generalizing n' with
  | step n ih =>
      have hbelow : ∀ {cs cs' : List Node}, (∀ c ∈ cs, c ∈ n.children) →
          List.Forall₂ (Remarked together) cs cs' → List.Forall₂ (Remarked together)
            ((cs.flatMap (walk fun _ => false)).filter Node.isBlock)
            ((cs'.flatMap (walk fun _ => false)).filter Node.isBlock) := by
        intro cs cs' hcs h
        induction h with
        | nil => exact .nil
        | @cons c c' _ _ hc _ ihcs =>
            simp only [List.flatMap_cons, List.filter_append]
            exact List.rel_append (ih c (hcs c List.mem_cons_self) hc)
              (ihcs fun m hm => hcs m (List.mem_cons_of_mem _ hm))
      have hrest := hbelow (fun _ h => h) h.cases.children
      rw [walk_eq, walk_eq, List.filter_cons, List.filter_cons, h.isBlock]
      split
      · exact .cons h hrest
      · exact hrest

end Remarked

/-! ### Rewriting such trees -/

section Rewriting

variable {σ τ : Type} {J : σ → τ → Prop}

end Rewriting

/-! ### Preparing such trees -/

section Prepared

variable {filters : List String}

/-- The statements of a body. -/
theorem Remarked.statements : Remarked together n n' → List.Forall₂ (Remarked together)
    (match n with | group .sequence _ members => members | other => [other])
    (match n' with | group .sequence _ members => members | other => [other]) := by
  intro h
  cases h.cases with
  | alike halike =>
      cases halike with
      | @group k _ _ _ _ _ hns =>
          cases k with
          | sequence => exact hns
          | _ => exact .cons h .nil
      | _ => exact .cons h .nil
  | branch | loop => exact .cons h .nil

/-- A node whose parts were replaced is of the same kind. -/
theorem Parts.alike (h : Parts R n n') : Alike (fun _ _ => True) R n n' := by
  cases h <;> constructor <;> trivial

/-- Only marks change when statements that may wait are marked.  Which ones are is not the same in two
trees, so a tree is compared with what it becomes. -/
theorem promotion_remarked (n : Node) : Remarked true n (rewrite promotion n ()).1.result := by
  refine (rewrite_related (R := Remarked true) (P := fun _ => True) (I := fun _ : Unit => True) promotion
    (fun _ _ _ _ => trivial) (fun n _ _ => .refl n) (fun _ _ h => by cases h)
    (fun n n' s _ _ _ hparts => ⟨?_, trivial⟩) trivial trivial).1
  have hnode : RunsAs true (fun _ _ => True) (Remarked true) n n' := .of_alike hparts.alike
  change Remarked true n (n'.promote?.getD n')
  unfold promote?
  split
  · split
    · cases hnode with
      | alike h =>
          cases h with
          | branch hp ha hb hc => exact .of_node (.branch hp ha hb hc)
      | branch hp ha hb hc => exact .of_node (.branch hp ha hb hc)
    · exact .of_node hnode
  · split
    · cases hnode with
      | alike h hn =>
          cases h with
          | loop => exact absurd rfl (hn _ _ _ _ _ _)
      | loop hm hp ha hb hc hd =>
          refine .of_node (.loop ?_ hp ha hb hc hd)
          simpa using hm
    · exact .of_node hnode
  · exact .of_node hnode

end Prepared

end Node

/-! ### Sources -/

variable {config : Config} {hosts : List TagReader} {filters : List String}

/-- Two sources that are read as trees that are the same but for places and marks, where no iterations
run at once in the first tree; or sources neither of which can be read. -/
def SequencedSource (config : Config) (hosts : List TagReader) (source source' : String) : Prop :=
  Answers (fun _ _ => True) (Node.Remarked false) (Node.ofSource config hosts source)
    (Node.ofSource config hosts source')

/-- No iterations run at once in the empty source. -/
theorem SequencedSource.empty : SequencedSource config hosts "" "" := by
  have hempty : Node.ofSource config hosts "" = .ok (.group .root .start []) := by rfl
  unfold SequencedSource
  rw [hempty]
  exact .ok (.of_alike (.group trivial .nil) fun _ _ _ _ _ _ h => nomatch h)

namespace Node

variable {together : Bool} {n n' : Node}

end Node

end Stencil
