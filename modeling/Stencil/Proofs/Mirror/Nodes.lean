/-
**Trees that are alike.**

Two runs that are compared run different trees.  The trees are alike as far as they are looked at:
two nodes are of one kind, with the same names and operators, and the nodes directly below are
related in turn.  Some kinds of nodes are only run and never looked into by the code around them;
nodes of these kinds may be related in other ways.

Main definitions:

* `Stencil.Node.Alike` — two nodes of one kind, at related places, the parts of which are related;
* `Stencil.Node.isSeen` — whether the code around a node looks into it;
* `Stencil.Node.Faithful` — a relation of trees under which what is looked at is alike.

Main results:

* `Stencil.Node.Faithful.asSymbol?`, `Stencil.Node.Faithful.members`,
  `Stencil.Node.Faithful.loopNames`, `Stencil.Node.Faithful.defaultParameters` — what is read off
  related trees.
-/

import Mathlib.Data.List.Forall2
import Stencil.Render.Run

set_option autoImplicit false

namespace Stencil

namespace Node

/-! ### Nodes of one kind -/

/-- Two nodes of one kind, at related places, the parts of which are related. -/
inductive Alike (P : Position → Position → Prop) (R : Node → Node → Prop) : Node → Node → Prop
  | group {k p p' ns ns'} (hp : P p p') (h : List.Forall₂ R ns ns') :
    Alike P R (group k p ns) (group k p' ns')
  | text {p p' s} (hp : P p p') : Alike P R (text p s) (text p' s)
  | capture {p p' a a'} (hp : P p p') (h : R a a') : Alike P R (capture p a) (capture p' a')
  | literal {p p' v} (hp : P p p') : Alike P R (literal p v) (literal p' v)
  | symbol {p p' s} (hp : P p p') : Alike P R (symbol p s) (symbol p' s)
  | pair {p p' a b a' b'} (hp : P p p') (ha : R a a') (hb : R b b') :
    Alike P R (pair p a b) (pair p' a' b')
  | binary {p p' o a b a' b'} (hp : P p p') (ha : R a a') (hb : R b b') :
    Alike P R (binary p o a b) (binary p' o a' b')
  | unary {p p' o a a'} (hp : P p p') (h : R a a') : Alike P R (unary p o a) (unary p' o a')
  | compare {p p' a ns a' ns'} (hp : P p p') (ha : R a a') (h : List.Forall₂ R ns ns') :
    Alike P R (compare p a ns) (compare p' a' ns')
  | operand {p p' o a a'} (hp : P p p') (h : R a a') :
    Alike P R (operand p o a) (operand p' o a')
  | choice {p p' a b c a' b' c'} (hp : P p p') (ha : R a a') (hb : R b b')
    (hc : Option.Rel R c c') : Alike P R (choice p a b c) (choice p' a' b' c')
  | lookup {p p' a b a' b'} (hp : P p p') (ha : R a a') (hb : R b b') :
    Alike P R (lookup p a b) (lookup p' a' b')
  | slice {p p' a b c a' b' c'} (hp : P p p') (ha : Option.Rel R a a') (hb : Option.Rel R b b')
    (hc : Option.Rel R c c') : Alike P R (slice p a b c) (slice p' a' b' c')
  | call {p p' a b a' b'} (hp : P p p') (ha : R a a') (hb : R b b') :
    Alike P R (call p a b) (call p' a' b')
  | filter {p p' s a a'} (hp : P p p') (h : R a a') : Alike P R (filter p s a) (filter p' s a')
  | tagCall {p p' t a ns a' ns'} (hp : P p p') (ha : R a a') (h : List.Forall₂ R ns ns') :
    Alike P R (tagCall p t a ns) (tagCall p' t a' ns')
  | branch {p p' s a b c a' b' c'} (hp : P p p') (ha : R a a') (hb : R b b')
    (hc : Option.Rel R c c') : Alike P R (branch p s a b c) (branch p' s a' b' c')
  | loop {p p' m a b c d a' b' c' d'} (hp : P p p') (ha : R a a') (hb : R b b') (hc : R c c')
    (hd : Option.Rel R d d') : Alike P R (loop p m a b c d) (loop p' m a' b' c' d')
  | assign {p p' ns a b ns' a' b'} (hp : P p p') (h : List.Forall₂ R ns ns')
    (ha : Option.Rel R a a') (hb : Option.Rel R b b') :
    Alike P R (assign p ns a b) (assign p' ns' a' b')
  | definition {p p' r s a b a' b'} (hp : P p p') (ha : R a a') (hb : R b b') :
    Alike P R (definition p r s a b) (definition p' r s a' b')
  | block {p p' s a a'} (hp : P p p') (h : R a a') : Alike P R (block p s a) (block p' s a')
  | overridden {p p' s a a'} (hp : P p p') (h : R a a') :
    Alike P R (overridden p s a) (overridden p' s a')
  | extend {p p' a a'} (hp : P p p') (h : R a a') : Alike P R (extend p a) (extend p' a')
  | embed {p p' i a a'} (hp : P p p') (h : R a a') : Alike P R (embed p a i) (embed p' a' i)
  | importAll {p p' t c a a'} (hp : P p p') (h : R a a') :
    Alike P R (importAll p a t c) (importAll p' a' t c)
  | importNames {p p' ns c a a'} (hp : P p p') (h : R a a') :
    Alike P R (importNames p a ns c) (importNames p' a' ns c)
  | bind {p p' a b a' b'} (hp : P p p') (ha : R a a') (hb : R b b') :
    Alike P R (bind p a b) (bind p' a' b')

variable {P : Position → Position → Prop} {R : Node → Node → Prop} {n n' : Node}

theorem optionRel_mono {Q : Node → Node → Prop} {o o' : Option Node}
    (h : ∀ c c', o = some c → R c c' → Q c c') (ho : Option.Rel R o o') : Option.Rel Q o o' := by
  cases ho with
  | none => exact .none
  | some hc => exact .some (h _ _ rfl hc)

theorem forall₂_mono {α β : Type} {R Q : α → β → Prop} {ns : List α} {ns' : List β}
    (h : ∀ c c', c ∈ ns → R c c' → Q c c') (hns : List.Forall₂ R ns ns') : List.Forall₂ Q ns ns' := by
  induction hns with
  | nil => exact .nil
  | cons hc _ ih =>
      exact .cons (h _ _ List.mem_cons_self hc) (ih fun c c' hc => h c c' (List.mem_cons_of_mem _ hc))

/-- Parts that are related in one way may be related in another one. -/
theorem Alike.mono {Q : Node → Node → Prop} (h : Alike P R n n')
    (hQ : ∀ c c', c ∈ n.children → R c c' → Q c c') : Alike P Q n n' := by
  cases h <;> constructor <;> first
    | assumption
    | exact hQ _ _ (by simp [children, fields, Field.nodes]) (by assumption)
    | exact forall₂_mono (fun c c' hc => hQ c c' (by simp [children, fields, Field.nodes, hc]))
        (by assumption)
    | exact optionRel_mono (fun c c' hc => hQ c c' (by simp [children, fields, Field.nodes, hc]))
        (by assumption)

/-- What lies directly below two nodes of one kind is related one by one. -/
theorem Alike.children (h : Alike P R n n') : List.Forall₂ R n.children n'.children := by
  have hoption : ∀ {o o' : Option Node}, Option.Rel R o o' → List.Forall₂ R o.toList o'.toList :=
    fun ho => by
      cases ho with
      | none => exact .nil
      | some hc => exact .cons hc .nil
  cases h <;>
    simp only [Node.children, fields, Field.nodes, List.flatMap_cons, List.flatMap_nil,
      List.append_nil, List.cons_append, List.nil_append]
  case text | literal | symbol => exact .nil
  case group h => exact h
  case capture h | unary h | operand h | filter h | block h | overridden h | extend h | embed h
      | importAll h | importNames h => exact .cons h .nil
  case pair ha hb | binary ha hb | lookup ha hb | call ha hb | definition ha hb | bind ha hb =>
    exact .cons ha (.cons hb .nil)
  case compare ha h | tagCall ha h => exact .cons ha h
  case choice ha hb hc | branch ha hb hc => exact .cons ha (.cons hb (hoption hc))
  case slice ha hb hc => exact List.rel_append (hoption ha) (List.rel_append (hoption hb) (hoption hc))
  case loop ha hb hc hd => exact .cons ha (.cons hb (.cons hc (hoption hd)))
  case assign h ha hb => exact List.rel_append h (List.rel_append (hoption ha) (hoption hb))

/-- Where each part is related to itself, so is each node. -/
theorem Alike.refl (hP : ∀ p, P p p) (hR : ∀ n, R n n) (n : Node) : Alike P R n n := by
  have hlist : ∀ ns : List Node, List.Forall₂ R ns ns := fun ns =>
    List.forall₂_same.2 fun n _ => hR n
  have hopt : ∀ o : Option Node, Option.Rel R o o := fun o => by
    cases o with
    | none => exact .none
    | some n => exact .some (hR n)
  cases n <;> constructor <;> first | exact hP _ | exact hR _ | exact hlist _ | exact hopt _

theorem optionRel_flip {o o' : Option Node} (h : Option.Rel R o o') :
    Option.Rel (fun c c' => R c' c) o' o := by
  cases h with
  | none => exact .none
  | some hc => exact .some hc

/-- Nodes of one kind may be compared the other way round. -/
theorem Alike.flip (h : Alike P R n n') : Alike (fun p p' => P p' p) (fun c c' => R c' c) n' n := by
  cases h <;> constructor <;> first
    | assumption
    | exact List.Forall₂.flip (by assumption)
    | exact optionRel_flip (by assumption)

theorem forall₂_trans {R₁ R₂ R₃ : Node → Node → Prop} (h : ∀ a b c, R₁ a b → R₂ b c → R₃ a c)
    {ns ms ks : List Node} (h₁ : List.Forall₂ R₁ ns ms) (h₂ : List.Forall₂ R₂ ms ks) :
    List.Forall₂ R₃ ns ks := by
  induction h₁ generalizing ks with
  | nil =>
      cases h₂
      exact .nil
  | cons ha _ ih =>
      cases h₂ with
      | cons hb hrest => exact .cons (h _ _ _ ha hb) (ih hrest)

theorem optionRel_trans {R₁ R₂ R₃ : Node → Node → Prop} (h : ∀ a b c, R₁ a b → R₂ b c → R₃ a c)
    {n m k : Option Node} (h₁ : Option.Rel R₁ n m) (h₂ : Option.Rel R₂ m k) : Option.Rel R₃ n k := by
  cases h₁ with
  | none =>
      cases h₂
      exact .none
  | some ha =>
      cases h₂ with
      | some hb => exact .some (h _ _ _ ha hb)

/-- Nodes of the kind of a third node are of one kind. -/
theorem Alike.trans {P₁ P₂ P₃ : Position → Position → Prop} {R₁ R₂ R₃ : Node → Node → Prop}
    (hP : ∀ p q r, P₁ p q → P₂ q r → P₃ p r) (hR : ∀ a b c, R₁ a b → R₂ b c → R₃ a c) {n m k : Node}
    (h₁ : Alike P₁ R₁ n m) (h₂ : Alike P₂ R₂ m k) : Alike P₃ R₃ n k := by
  cases h₁ <;> cases h₂ <;> constructor <;> first
    | exact hP _ _ _ (by assumption) (by assumption)
    | exact hR _ _ _ (by assumption) (by assumption)
    | exact forall₂_trans hR (by assumption) (by assumption)
    | exact optionRel_trans hR (by assumption) (by assumption)

/-- Whether the code around a node looks into it. -/
def isSeen : Node → Bool
  | group _ _ _ | text _ _ | literal _ _ | symbol _ _ | pair _ _ _ | operand _ _ _ | lookup _ _ _
  | slice _ _ _ _ | call _ _ _ => true
  | _ => false

/-- A relation of trees under which what is looked at is alike. -/
def Faithful (P : Position → Position → Prop) (R : Node → Node → Prop) : Prop :=
  ∀ n n' : Node, R n n' → Alike P R n n' ∨ (n.isSeen = false ∧ n'.isSeen = false)

/-! ### What is not looked into -/

section Unseen

variable (h : n.isSeen = false)

include h

theorem asSymbol?_of_unseen : n.asSymbol? = none := by
  cases n <;> first | rfl | cases h

theorem members_of_unseen : n.members = [] := by
  cases n <;> first | rfl | cases h

theorem isKeywords_of_unseen : Render.isKeywords n = false := by
  cases n <;> first | rfl | cases h

theorem loopNames_of_unseen : Render.loopNames n = [] := by
  cases n <;> first | rfl | cases h

theorem calleeName_of_unseen : Render.calleeName n = "[expression]" := by
  cases n <;> first | rfl | cases h

end Unseen

/-- The name and the default that a pair of the parameters of a macro gives. -/
def defaultOf? : Node → Option (String × Node)
  | pair _ (symbol _ name) value => some (name, value)
  | _ => none

theorem defaultParameters_eq (n : Node) :
    Render.defaultParameters n =
      n.members.flatMap fun m => if Render.isKeywords m then m.members.filterMap defaultOf? else [] := by
  unfold Render.defaultParameters
  congr 1
  funext m
  cases m with
  | group kind p members => cases kind <;> rfl
  | _ => rfl

/-! ### What is read off related trees -/

theorem filterMap_related {α β : Type} {S : α → α → Prop} {f : β → Option α} {Q : β → β → Prop}
    (hf : ∀ b b', Q b b' → Option.Rel S (f b) (f b')) {bs bs' : List β}
    (h : List.Forall₂ Q bs bs') : List.Forall₂ S (bs.filterMap f) (bs'.filterMap f) := by
  induction h with
  | nil => exact .nil
  | @cons b b' _ _ h _ ih =>
      have hb := hf b b' h
      rw [List.filterMap_cons, List.filterMap_cons]
      generalize f b = a, f b' = a' at hb
      cases hb with
      | none => exact ih
      | some hs => exact .cons hs ih

namespace Faithful

theorem asSymbol? (hR : Faithful P R) (h : R n n') : n'.asSymbol? = n.asSymbol? := by
  rcases hR _ _ h with h | ⟨hn, hn'⟩
  · cases h <;> rfl
  · rw [asSymbol?_of_unseen hn, asSymbol?_of_unseen hn']

theorem members (hR : Faithful P R) (h : R n n') : List.Forall₂ R n.members n'.members := by
  rcases hR _ _ h with hlike | ⟨hn, hn'⟩
  · cases hlike with
    | group _ hns => exact hns
    | _ => exact .nil
  · rw [members_of_unseen hn, members_of_unseen hn']
    exact .nil

theorem isKeywords (hR : Faithful P R) (h : R n n') :
    Render.isKeywords n' = Render.isKeywords n := by
  rcases hR _ _ h with h | ⟨hn, hn'⟩
  · cases h with
    | @group k => cases k <;> rfl
    | _ => rfl
  · rw [isKeywords_of_unseen hn, isKeywords_of_unseen hn']

/-- The names of the symbols of a list. -/
theorem symbols (hR : Faithful P R) {ns ns' : List Node} (h : List.Forall₂ R ns ns') :
    ns'.filterMap Node.asSymbol? = ns.filterMap Node.asSymbol? := by
  induction h with
  | nil => rfl
  | cons h _ ih => simp only [List.filterMap_cons, hR.asSymbol? h, ih]

theorem loopNames (hR : Faithful P R) (h : R n n') : Render.loopNames n' = Render.loopNames n := by
  rcases hR _ _ h with hlike | ⟨hn, hn'⟩
  · cases hlike with
    | @group k _ _ _ _ _ hns =>
        cases k with
        | array => exact hR.symbols hns
        | _ => rfl
    | _ => rfl
  · rw [loopNames_of_unseen hn, loopNames_of_unseen hn']

theorem plainParameters (hR : Faithful P R) (h : R n n') :
    Render.plainParameters n' = Render.plainParameters n :=
  hR.symbols (hR.members h)

theorem defaultOf? (hR : Faithful P R) (h : R n n') :
    Option.Rel (fun e e' : String × Node => e'.1 = e.1 ∧ R e.2 e'.2) n.defaultOf?
      n'.defaultOf? := by
  have hpair : ∀ m : Node, m.isSeen = false → m.defaultOf? = none := fun m hm => by
    cases m <;> first | rfl | cases hm
  have hnone : ∀ {p : Position} {m v : Node}, m.isSeen = false →
      (Node.pair p m v).defaultOf? = none := fun {_ m _} hm => by
    cases m <;> first | rfl | cases hm
  rcases hR _ _ h with h | ⟨hn, hn'⟩
  · cases h with
    | pair _ ha hb =>
        rcases hR _ _ ha with ha | ⟨hn, hn'⟩
        · cases ha with
          | symbol => exact .some ⟨rfl, hb⟩
          | _ => exact .none
        · rw [hnone hn, hnone hn']
          exact .none
    | _ => exact .none
  · rw [hpair _ hn, hpair _ hn']
    exact .none

theorem defaultParameters (hR : Faithful P R) (h : R n n') :
    List.Forall₂ (fun e e' : String × Node => e'.1 = e.1 ∧ R e.2 e'.2)
      (Render.defaultParameters n) (Render.defaultParameters n') := by
  rw [defaultParameters_eq, defaultParameters_eq]
  have hmembers := hR.members h
  generalize n.members = ns, n'.members = ns' at hmembers
  induction hmembers with
  | nil => exact .nil
  | cons h _ ih =>
      rw [List.flatMap_cons, List.flatMap_cons, hR.isKeywords h]
      refine List.rel_append ?_ ih
      split
      · exact filterMap_related (fun _ _ hm => hR.defaultOf? hm) (hR.members h)
      · exact .nil

theorem calleeName (hR : Faithful P R) (h : R n n') :
    Render.calleeName n' = Render.calleeName n := by
  have hkey : ∀ {p : Position} {a m : Node}, m.isSeen = false →
      Render.calleeName (.lookup p a m) = "[expression]" := fun {_ _ m} hm => by
    cases m <;> first | rfl | cases hm
  rcases hR _ _ h with h | ⟨hn, hn'⟩
  · cases h with
    | lookup _ _ hb =>
        rcases hR _ _ hb with hb | ⟨hn, hn'⟩
        · cases hb with
          | @literal _ _ v => cases v <;> rfl
          | _ => rfl
        · rw [hkey hn, hkey hn']
    | _ => rfl
  · rw [calleeName_of_unseen hn, calleeName_of_unseen hn']

end Faithful

end Node

end Stencil
