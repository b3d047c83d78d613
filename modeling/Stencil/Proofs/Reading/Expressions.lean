/-
**Reading expressions takes what stands inside of tags.**

The actions that read expressions go over no end of a tag, and there are no texts in what they give.

Main definitions:

* `Stencil.Node.texts`, `Stencil.Node.Silent` — the texts of a tree, and a tree without any;
* `Stencil.Grammar.StaysInside` — a grammar of which the expressions are read inside of a tag.

Main results:

* `Stencil.Parse.Inside.primary`, `Stencil.Parse.Inside.signature` — what stands in brackets, and what
  follows a literal or a name;
* `Stencil.Parse.Inside.expression` — **expressions**.
-/

import Stencil.Proofs.Reading.Inside
import Stencil.Proofs.Tree
import Stencil.Parser.Expression

set_option autoImplicit false

namespace Stencil

/-! ### Texts of trees -/

namespace Node

/-- The text that a node is. -/
def text? : Node → Option String
  | text _ content => some content
  | _ => none

/-- The texts of a tree in their order. -/
def texts (n : Node) : List String := (n.walk fun _ => false).filterMap text?

/-- A tree without texts. -/
def Silent (n : Node) : Prop := n.texts = []

variable {n : Node}

theorem texts_eq (n : Node) : n.texts = n.text?.toList ++ n.children.flatMap texts := by
  have hflat : ∀ ns : List Node, (ns.flatMap (walk fun _ => false)).filterMap text? =
      ns.flatMap texts := by
    intro ns
    induction ns with
    | nil => rfl
    | cons c rest ih => rw [List.flatMap_cons, List.filterMap_append, ih, List.flatMap_cons, texts]
  rw [texts, walk_eq, List.filterMap_cons]
  cases htext : n.text? <;> simp [hflat]

theorem silent_iff : n.Silent ↔ n.text? = none ∧ ∀ c ∈ n.children, c.Silent := by
  rw [Silent, texts_eq, List.append_eq_nil_iff, List.flatMap_eq_nil_iff]
  cases n.text? <;> simp [Silent]

theorem Silent.member (h : n.Silent) : ∀ m ∈ n.members, m.Silent := by
  intro m hm
  refine (silent_iff.1 h).2 m ?_
  cases n with
  | group => simpa [members, children, fields, Field.nodes] using hm
  | _ => simp [members] at hm

/-- Trees without texts. -/
def AllSilent (ns : List Node) : Prop := ∀ n ∈ ns, n.Silent

theorem AllSilent.nil : AllSilent [] := fun _ h => by simp at h

theorem AllSilent.append {ns ms : List Node} (h : AllSilent ns) (h' : AllSilent ms) :
    AllSilent (ns ++ ms) := List.forall_mem_append.2 ⟨h, h'⟩

theorem AllSilent.concat {ns : List Node} (h : AllSilent ns) (hn : n.Silent) : AllSilent (ns ++ [n]) :=
  h.append (List.forall_mem_singleton.2 hn)

/-- A tree that is without texts if it is there. -/
def OptionSilent (o : Option Node) : Prop := ∀ n ∈ o, n.Silent

theorem silent_symbol (p : Position) (name : String) : (symbol p name).Silent :=
  silent_iff.2 ⟨rfl, fun _ h => by simp [children, fields] at h⟩

theorem silent_literal (p : Position) (value : Literal) : (literal p value).Silent :=
  silent_iff.2 ⟨rfl, fun _ h => by simp [children, fields] at h⟩

theorem silent_group {kind : GroupKind} {p : Position} {ns : List Node} (h : AllSilent ns) :
    (group kind p ns).Silent := by
  have hns : ∀ n ∈ ns, n.Silent := h
  exact silent_iff.2 ⟨rfl, by simpa [children, fields, Field.nodes] using hns⟩

theorem silent_binary {p : Position} {op : BinaryOp} {a b : Node} (ha : a.Silent) (hb : b.Silent) :
    (binary p op a b).Silent :=
  silent_iff.2 ⟨rfl, by simp [children, fields, Field.nodes, ha, hb]⟩

theorem silent_unary {p : Position} {op : UnaryOp} {a : Node} (ha : a.Silent) :
    (unary p op a).Silent :=
  silent_iff.2 ⟨rfl, by simp [children, fields, Field.nodes, ha]⟩

theorem silent_lookup {p : Position} {a b : Node} (ha : a.Silent) (hb : b.Silent) :
    (lookup p a b).Silent :=
  silent_iff.2 ⟨rfl, by simp [children, fields, Field.nodes, ha, hb]⟩

theorem silent_filter {p : Position} {name : String} {a : Node} (ha : a.Silent) :
    (filter p name a).Silent :=
  silent_iff.2 ⟨rfl, by simp [children, fields, Field.nodes, ha]⟩

theorem silent_pair {p : Position} {a b : Node} (ha : a.Silent) (hb : b.Silent) :
    (pair p a b).Silent :=
  silent_iff.2 ⟨rfl, by simp [children, fields, Field.nodes, ha, hb]⟩

theorem silent_slice {p : Position} {a b c : Option Node} (ha : OptionSilent a)
    (hb : OptionSilent b) (hc : OptionSilent c) : (slice p a b c).Silent := by
  refine silent_iff.2 ⟨rfl, ?_⟩
  simp only [children, fields, Field.nodes, List.flatMap_cons, List.flatMap_nil, List.append_nil,
    List.forall_mem_append]
  exact ⟨fun n hn => ha n (by simpa using hn), fun n hn => hb n (by simpa using hn),
    fun n hn => hc n (by simpa using hn)⟩

end Node

open Node (Silent AllSilent OptionSilent)

/-- A grammar of which the expressions are read inside of a tag. -/
structure Grammar.StaysInside (g : Grammar) : Prop where
  expression : g.expression.Inside Silent
  negation : g.negation.Inside Silent
  unary : g.unary.Inside Silent
  primary : ∀ bare, (g.primary bare).Inside Silent

namespace Parse.Inside

variable {g : Grammar}

theorem symbol (what : String) : Inside Silent (Parse.symbol what) :=
  (expect rfl what).bind fun _ _ => pure (Node.silent_symbol _ _)

/-! ### Literals and brackets -/

theorem integer (token : Token) : Inside Silent (Parse.integer token) := by
  unfold Parse.integer
  dsimp only
  split
  · exact pure (Node.silent_literal _ _)
  · exact failAt _ _

theorem item (hg : g.StaysInside) (isDict : Bool) : Inside Silent (Parse.item g isDict) := by
  unfold Parse.item
  split
  · refine (hg.primary true).bind fun key hkey => ?_
    refine (expect rfl _).ignore.bind fun _ _ => hg.expression.bind fun value hvalue =>
      pure (Node.silent_pair ?_ hvalue)
    split
    · exact Node.silent_literal _ _
    · exact hkey
  · exact hg.expression

theorem items (hg : g.StaysInside) {close : TokenKind} (hclose : close.isInner = true)
    (isDict : Bool) : Inside (fun r => AllSilent r.1) (Parse.items g close isDict) := by
  have hmore : ∀ ns : List Node, AllSilent ns →
      Inside (Sum.elim AllSilent fun r : List Node × Bool => AllSilent r.1)
        (do return Sum.inl (ns ++ [← Parse.item g isDict]) : Parse (List Node ⊕ List Node × Bool)) :=
    fun ns hns => (item hg isDict).bind fun n hn => pure (hns.concat hn)
  unfold Parse.items
  refine iterate (Q := AllSilent) .nil fun ns hns => (skip hclose).bind fun _ _ => ?_
  split
  · exact pure hns
  · dsimp only
    split
    · refine (expect rfl _).ignore.bind fun _ _ => (skip hclose).bind fun _ _ => ?_
      split
      · exact pure hns
      · exact hmore ns hns
    · exact hmore ns hns

theorem bracketed (hg : g.StaysInside) (opening : Token) :
    Inside Silent (Parse.bracketed g opening) := by
  unfold Parse.bracketed
  split
  · refine (items hg rfl _).bind fun r hr => ?_
    split
    · rename_i one
      exact pure (hr one List.mem_cons_self)
    · exact pure (Node.silent_group hr)
  · exact (items hg rfl _).bind fun r hr => pure (Node.silent_group hr)
  · exact (items hg rfl _).bind fun r hr => pure (Node.silent_group hr)

theorem atom (hg : g.StaysInside) : Inside Silent (Parse.atom g) := by
  unfold Parse.atom
  refine next (endOfFile _) fun t => ?_
  dsimp only
  have hliteral : ∀ {value : Literal}, t.kind.isInner = true →
      Inside (fun n => t.kind.isInner = true ∧ n.Silent)
        (Pure.pure (Node.literal t.position value) : Parse Node) :=
    fun hinner => pure ⟨hinner, Node.silent_literal _ _⟩
  have hbracketed : t.kind.isInner = true →
      Inside (fun n => t.kind.isInner = true ∧ n.Silent) (Parse.bracketed g t) :=
    fun hinner => (bracketed hg t).mono fun _ hn => ⟨hinner, hn⟩
  split
  all_goals rename_i hkind
  · exact hliteral (by rw [hkind]; rfl)
  · exact (integer t).mono fun _ hn => ⟨by rw [hkind]; rfl, hn⟩
  · exact hliteral (by rw [hkind]; rfl)
  · exact hliteral (by rw [hkind]; rfl)
  · exact hliteral (by rw [hkind]; rfl)
  · exact hliteral (by rw [hkind]; rfl)
  · exact pure ⟨by rw [hkind]; rfl, Node.silent_symbol _ _⟩
  · exact hbracketed (by rw [hkind]; rfl)
  · exact hbracketed (by rw [hkind]; rfl)
  · exact hbracketed (by rw [hkind]; rfl)
  · exact failAt _ _

/-! ### Arguments, subscripts and filters -/

theorem argument (hg : g.StaysInside) {positional keywords : List Node}
    (h : AllSilent positional ∧ AllSilent keywords) :
    Inside (fun r => AllSilent r.1 ∧ AllSilent r.2) (Parse.argument g positional keywords) := by
  unfold Parse.argument
  refine hg.expression.bind fun argument hargument => (skipValue rfl _).bind fun _ _ => ?_
  split
  · have hrest : ∀ u : PUnit, Inside (fun r => AllSilent r.1 ∧ AllSilent r.2) (do
        let value ← g.expression
        return (positional, keywords ++ [.pair argument.position argument value])) := fun _ =>
      hg.expression.bind fun value hvalue => pure ⟨h.1, h.2.concat (Node.silent_pair hargument hvalue)⟩
    exact guard (failAt _ _) hrest
  · split
    · exact failAt _ _
    · exact pure ⟨h.1.concat hargument, h.2⟩

theorem signature (hg : g.StaysInside) : Inside Silent (Parse.signature g) := by
  unfold Parse.signature
  refine (expect rfl _).bind fun opening _ => ?_
  let both (r : List Node × List Node) : Prop := AllSilent r.1 ∧ AllSilent r.2
  refine bind (iterate (Q := both) (R := both) ⟨.nil, .nil⟩ ?_) fun ⟨positional, keywords⟩ h =>
    pure (Node.silent_group (h.1.append ?_))
  · rintro ⟨positional, keywords⟩ h
    have hargument : Inside (Sum.elim both both)
        (do return Sum.inl (← Parse.argument g positional keywords)) :=
      (argument hg h).bind fun r hr => pure hr
    refine (skip rfl).bind fun _ _ => ?_
    split
    · exact pure h
    · dsimp only
      split
      · refine (expect rfl _).ignore.bind fun _ _ => (skip rfl).bind fun _ _ => ?_
        split
        · exact pure h
        · exact hargument
      · exact hargument
  · split
    · exact .nil
    · exact List.forall_mem_singleton.2 (Node.silent_group h.2)

theorem absent : Inside OptionSilent (Pure.pure none : Parse (Option Node)) :=
  pure fun _ h => by cases h

theorem present (hg : g.StaysInside) : Inside OptionSilent (some <$> g.expression) :=
  hg.expression.map fun n hn m hm => by
    cases hm
    exact hn

/-- What follows the end of a slice. -/
theorem sliceStep (hg : g.StaysInside) (here : Position) {start stop : Option Node}
    (hstart : OptionSilent start) (hstop : OptionSilent stop) :
    Inside Silent (do
      let step ←
        if ← Parse.skip .colon then
          if (← Parse.peekKind 0) = some .rightBracket then Pure.pure none
          else some <$> g.expression
        else Pure.pure none
      discard <| Parse.expect .rightBracket "`]`"
      return Node.slice ((start.map Node.position).getD here) start stop step) := by
  have hend : ∀ step, OptionSilent step → Inside Silent (do
      discard <| Parse.expect .rightBracket "`]`"
      return Node.slice ((start.map Node.position).getD here) start stop step) :=
    fun step hstep => (expect rfl _).ignore.bind fun _ _ =>
      pure (Node.silent_slice hstart hstop hstep)
  refine (skip rfl).bind fun _ _ => ?_
  split
  · refine (peekKind 0).bind fun _ _ => ?_
    split
    · exact absent.bind hend
    · exact (present hg).bind hend
  · exact absent.bind hend

/-- What follows an index, or the start of a slice. -/
theorem sliceStop (hg : g.StaysInside) (here : Position) (start : Option Node)
    (hstart : OptionSilent start) :
    Inside Silent (do
      match start, ← Parse.skip .colon with
      | some index, false =>
        discard <| Parse.expect .rightBracket "`]`"
        return index
      | start, _ =>
        let stop ←
          match ← Parse.peekKind 0 with
          | some .colon | some .rightBracket => Pure.pure none
          | _ => some <$> g.expression
        let step ←
          if ← Parse.skip .colon then
            if (← Parse.peekKind 0) = some .rightBracket then Pure.pure none
            else some <$> g.expression
          else Pure.pure none
        discard <| Parse.expect .rightBracket "`]`"
        return Node.slice ((start.map Node.position).getD here) start stop step) := by
  refine (skip rfl).bind fun _ _ => ?_
  split
  · rename_i index
    exact (expect rfl _).ignore.bind fun _ _ => pure (hstart index rfl)
  · refine (peekKind 0).bind fun _ _ => ?_
    split
    · exact absent.bind fun _ h => sliceStep hg here hstart h
    · exact absent.bind fun _ h => sliceStep hg here hstart h
    · exact (present hg).bind fun _ h => sliceStep hg here hstart h

theorem subscript (hg : g.StaysInside) : Inside Silent (Parse.subscript g) := by
  unfold Parse.subscript
  refine get.bind fun p _ => (peekKind 0).bind fun _ _ => ?_
  split
  · exact absent.bind (sliceStop hg p.lexer.position)
  · exact (present hg).bind (sliceStop hg p.lexer.position)

theorem filterName : Inside (fun _ => True) Parse.filterName := by
  unfold Parse.filterName
  refine (expect rfl _).bind fun first _ => iterate (Q := fun _ => True) trivial fun name _ => ?_
  have hdone : Inside (Sum.elim (fun _ : String => True) fun _ : String => True)
      (Pure.pure (.inr name) : Parse (String ⊕ String)) := pure trivial
  refine InsideFrom.bind (InsideFrom.peekIs stable_true 0 _ _) fun point => ?_
  split
  · rename_i hpoint
    refine InsideFrom.mono (P := (Parser.Sees · [.operator])) ?_
      (fun p hp => sees_singleton (hp.2 hpoint)) fun _ _ h => h
    refine (InsideFrom.peekKind (stable_sees _) 1).bind fun kind => ?_
    split
    · rename_i hkind
      refine InsideFrom.mono (P := (Parser.Sees · [.operator, .symbol])) ?_
        (fun p hp => sees_pair hp.1 (hp.2.trans hkind)) fun _ _ h => h
      refine InsideFrom.takeThen rfl ((InsideFrom.take rfl).bind fun part => ?_)
      cases part with
      | some part => exact .of_inside (pure trivial)
      | none => exact .of_inside (pure trivial)
    · exact .of_inside hdone
  · exact .of_inside hdone

theorem member : Inside Silent Parse.member := by
  unfold Parse.member
  refine next (endOfFile _) fun t => ?_
  dsimp only
  split
  · rename_i hkind
    exact pure ⟨by rw [hkind]; rfl, Node.silent_literal _ _⟩
  · rename_i hkind
    exact (integer t).mono fun _ hn => ⟨by rw [hkind]; rfl, hn⟩
  · exact failAt _ _

/-- The arguments of a filter are read if there are any, and something else after them. -/
theorem filterArguments (hg : g.StaysInside) {β : Type} {R : β → Prop} {k : List Node → Parse β}
    (hk : ∀ more, AllSilent more → Inside R (k more)) :
    Inside R (Parse.peekKind 0 >>= fun kind =>
      if kind = some .leftParen then
        Parse.signature g >>= fun arguments => Pure.pure arguments.members >>= k
      else Pure.pure [] >>= k) := by
  refine (peekKind 0).bind fun _ _ => ?_
  split
  · exact (signature hg).bind fun arguments harguments => (pure harguments.member).bind hk
  · exact (pure .nil).bind hk

theorem suffix (hg : g.StaysInside) {n : Node} (hn : n.Silent) :
    Inside OptionSilent (Parse.suffix? g n) := by
  have hsome : ∀ {m : Node}, m.Silent → OptionSilent (some m) := fun hm k hk => by
    cases hk
    exact hm
  unfold Parse.suffix?
  refine InsideFrom.bind (InsideFrom.peekIs stable_true 0 _ _) fun point => ?_
  refine (InsideFrom.peekKind (P := fun p => point = true → p.Sees [.operator]) ?_ 0).mono
    (fun p hp hpoint => sees_singleton (hp.2 hpoint)) (fun _ _ h => h) |>.bind fun kind => ?_
  · exact stable_imp (stable_sees _)
  split
  · exact .of_inside ((signature hg).bind fun arguments harguments =>
      pure (hsome (Node.silent_iff.2 ⟨rfl, by
        simp [Node.children, Node.fields, Node.Field.nodes, hn, harguments]⟩)))
  · exact (InsideFrom.takeThen rfl (.of_inside ((subscript hg).bind fun key hkey =>
      pure (hsome (Node.silent_lookup hn hkey))))).mono (fun p hp => sees_singleton hp.2) fun _ _ h => h
  · have hfilter : ∀ name more, AllSilent more → Inside OptionSilent
        (Pure.pure (some (.filter n.position name (.sequence n.position (n :: more))))) :=
      fun name more hmore => pure (hsome (Node.silent_filter
        (Node.silent_group (List.forall_mem_cons.2 ⟨hn, hmore⟩))))
    refine (InsideFrom.takeThen rfl (.of_inside (filterName.bind fun name _ =>
      filterArguments hg (hfilter name)))).mono (fun p hp => sees_singleton hp.2) fun _ _ h => h
  · split
    · rename_i hpoint
      exact (InsideFrom.takeThen rfl (.of_inside (member.bind fun key hkey =>
        pure (hsome (Node.silent_lookup hn hkey))))).mono (fun p hp => hp.1 hpoint) fun _ _ h => h
    · exact .of_inside (pure fun _ h => by cases h)

theorem primary (hg : g.StaysInside) (bare : Bool) : Inside Silent (Parse.primary g bare) := by
  unfold Parse.primary
  refine (atom hg).bind fun n hn => ?_
  split
  · exact pure hn
  · refine iterate (Q := Silent) hn fun n hn => (suffix hg hn).bind fun m hm => ?_
    cases m with
    | some m => exact pure (hm m rfl)
    | none => exact pure hn

/-! ### Operators -/

theorem leftAssociative {operator : Parse (Option BinaryOp)} {operand : Parse Node}
    (hoperator : Inside (fun _ => True) operator) (hoperand : Inside Silent operand) :
    Inside Silent (Parse.leftAssociative operator operand) := by
  unfold Parse.leftAssociative
  refine hoperand.bind fun first hfirst => iterate (Q := Silent) hfirst fun left hleft =>
    hoperator.bind fun op _ => ?_
  cases op with
  | some op => exact hoperand.bind fun right hright => pure (Node.silent_binary hleft hright)
  | none => exact pure hleft

theorem power (hg : g.StaysInside) : Inside Silent (Parse.power g) := by
  unfold Parse.power
  refine (primary hg false).bind fun base hbase => (skipValue rfl _).bind fun _ _ => ?_
  split
  · exact hg.unary.bind fun exponent hexponent => pure (Node.silent_binary hbase hexponent)
  · exact pure hbase

theorem unary (hg : g.StaysInside) : Inside Silent (Parse.unary g) := by
  unfold Parse.unary
  refine (peek 0).bind fun t _ => ?_
  dsimp only
  split
  · exact (expect rfl _).bind fun token _ => hg.unary.bind fun target htarget =>
      pure (Node.silent_unary htarget)
  · exact power hg

/-- One of two operators is taken if it is next. -/
theorem orElse {α : Type} {taken : Parse Bool} {a : α} {rest : Parse α}
    (htaken : Inside (fun _ => True) taken) (hrest : Inside (fun _ => True) rest) :
    Inside (fun _ => True) (do if ← taken then return a else rest) := by
  refine htaken.bind fun b _ => ?_
  split
  · exact pure trivial
  · exact hrest

theorem productOperator : Inside (fun _ => True) productOperator? :=
  orElse (skipValue rfl _) <| orElse (skipValue rfl _) <| orElse (skipValue rfl _) <|
    orElse (skipValue rfl _) (pure trivial)

theorem sumOperator : Inside (fun _ => True) sumOperator? :=
  orElse (skipValue rfl _) <| orElse (skipValue rfl _) <| orElse (skip rfl) (pure trivial)

theorem sum (hg : g.StaysInside) : Inside Silent (Parse.sum g) :=
  leftAssociative sumOperator (leftAssociative productOperator (unary hg))

theorem within : Inside (fun _ => True) within? := by
  have hrest : Inside (fun _ => True) (do
      if ← Parse.skipSymbol "in" then return some false
      return none) := orElse (skipSymbol _) (pure trivial)
  unfold within?
  refine InsideFrom.bind (InsideFrom.peekIs stable_true 0 _ _) fun first => ?_
  split
  · rename_i hfirst
    refine InsideFrom.mono (P := (Parser.Sees · [.symbol])) ?_
      (fun p hp => sees_singleton (hp.2 hfirst)) fun _ _ h => h
    refine (InsideFrom.peekIs (stable_sees _) 1 _ _).bind fun negated => ?_
    dsimp only
    split
    · rename_i hnegated
      exact (InsideFrom.takeThen rfl (InsideFrom.takeThen rfl (.of_inside (pure trivial)))).mono
        (fun p hp => sees_pair hp.1 (hp.2 hnegated)) fun _ _ h => h
    · exact .of_inside hrest
  · exact .of_inside hrest

theorem is : Inside (fun _ => True) is? := by
  unfold is?
  refine (skipSymbol _).bind fun _ _ => ?_
  split
  · exact (skipSymbol _).bind fun _ _ => pure trivial
  · exact pure trivial

/-- What a chain of comparisons has read so far is without texts. -/
def Chain (r : Node × List Node) : Prop := r.1.Silent ∧ AllSilent r.2

theorem gathered {first : Node} {operands : List Node} (h : Chain (first, operands)) :
    (Parse.gathered first operands).Silent := by
  unfold Parse.gathered
  split
  · exact h.1
  · have hoperands : ∀ n ∈ operands, n.Silent := h.2
    exact Node.silent_iff.2 ⟨rfl, by
      simpa [Node.children, Node.fields, Node.Field.nodes, h.1] using hoperands⟩

theorem negatedIf {n : Node} (hn : n.Silent) (negated : Bool) : (Parse.negatedIf negated n).Silent := by
  unfold Parse.negatedIf
  split
  · exact Node.silent_unary hn
  · exact hn

theorem comparison (hg : g.StaysInside) : Inside Silent (Parse.comparison g) := by
  unfold Parse.comparison
  refine (sum hg).bind fun first hfirst => iterate (Q := Chain) ⟨hfirst, .nil⟩ ?_
  rintro ⟨first, operands⟩ h
  refine bind (Q := fun _ => True) ((peek 0).bind fun _ _ => pure trivial) fun op _ => ?_
  have hright : ∀ (op : BinaryOp) (negated : Bool), Inside (Sum.elim Chain Silent) (do
      let right ← Parse.sum g
      return .inl (Parse.negatedIf negated
        (Parse.binary op (Parse.gathered first operands) right), [])) := fun op negated =>
    (sum hg).bind fun right hright =>
      pure ⟨negatedIf (Node.silent_binary (gathered h) hright) negated, .nil⟩
  cases op with
  | some op =>
      refine (expect rfl _).bind fun token _ => (sum hg).bind fun value hvalue =>
        pure ⟨h.1, h.2.concat (Node.silent_iff.2 ⟨rfl, ?_⟩)⟩
      simp [Node.children, Node.fields, Node.Field.nodes, hvalue]
  | none =>
      refine within.bind fun negated _ => ?_
      cases negated with
      | some negated => exact hright _ negated
      | none =>
          refine is.bind fun negated _ => ?_
          cases negated with
          | some negated => exact hright _ negated
          | none => exact pure (gathered h)

theorem negation (hg : g.StaysInside) : Inside Silent (Parse.negation g) := by
  unfold Parse.negation
  refine (peek 0).bind fun _ _ => (skipSymbol _).bind fun _ _ => ?_
  split
  · exact hg.negation.bind fun target htarget => pure (Node.silent_unary htarget)
  · exact comparison hg

theorem disjunction (hg : g.StaysInside) : Inside Silent (Parse.disjunction g) :=
  have hword : ∀ (name : String) (op : BinaryOp), Inside (fun _ => True)
      (do return if ← Parse.skipSymbol name then some op else none) := fun name _ =>
    (skipSymbol name).bind fun _ _ => pure trivial
  leftAssociative (hword _ _) (leftAssociative (hword _ _) (negation hg))

/-- **Expressions** are read inside of a tag. -/
theorem expression (hg : g.StaysInside) : Inside Silent (Parse.expression g) := by
  unfold Parse.expression
  refine (disjunction hg).bind fun body hbody => (skipSymbol _).bind fun _ _ => ?_
  split
  · refine (disjunction hg).bind fun condition hcondition => (skipSymbol _).bind fun _ _ => ?_
    have hchoice : ∀ otherwise, OptionSilent otherwise → Inside Silent
        (Pure.pure (Node.choice body.position condition body otherwise)) := fun otherwise h => by
      have hotherwise : ∀ n ∈ otherwise, n.Silent := h
      exact pure (Node.silent_iff.2 ⟨rfl, by
        simpa [Node.children, Node.fields, Node.Field.nodes, hbody, hcondition] using hotherwise⟩)
    split
    · exact (present hg).bind hchoice
    · exact absent.bind hchoice
  · exact pure hbody

end Parse.Inside

end Stencil
