/-
**Reading expressions goes on.**

The loops of the actions that read expressions take a token in every round, and the actions call each
other only behind a token.

Main definitions:

* `Stencil.Grammar.Alike` — two grammars that are alike wherever so many tokens were taken since a
  parser.

Main results:

* `Stencil.Parse.Alike.listStep` — the rounds of everything that stands in brackets;
* `Stencil.Parse.Alike.primary`, `Stencil.Parse.Alike.signature` — what stands in brackets, and what
  follows a literal or a name;
* `Stencil.Parse.Alike.expression` — **expressions**.
-/

import Stencil.Proofs.Progress.Tokens
import Stencil.Proofs.Steps

set_option autoImplicit false

namespace Stencil

/-- Two grammars that are alike wherever at least so many tokens were taken since a parser. -/
structure Grammar.Alike (s : Parser) (c : Nat) (g g' : Grammar) : Prop where
  expression : Parse.Alike s c (fun _ => 1) g.expression g'.expression
  negation : Parse.Alike s c (fun _ => 1) g.negation g'.negation
  unary : Parse.Alike s c (fun _ => 1) g.unary g'.unary
  primary : ∀ bare, Parse.Alike s c (fun _ => 1) (g.primary bare) (g'.primary bare)
  branch : Parse.Alike s c (fun _ => 1) g.branch g'.branch
  nodes : ∀ names, Parse.Alike s c (fun _ => 0) (g.nodes names) (g'.nodes names)

/-- Grammars that are alike behind some tokens are alike behind one more. -/
theorem Grammar.Alike.after {s : Parser} {c : Nat} {g g' : Grammar} (h : g.Alike s c g') :
    g.Alike s (c + 1) g' where
  expression := h.expression.later (Nat.le_succ c)
  negation := h.negation.later (Nat.le_succ c)
  unary := h.unary.later (Nat.le_succ c)
  primary bare := (h.primary bare).later (Nat.le_succ c)
  branch := h.branch.later (Nat.le_succ c)
  nodes names := (h.nodes names).later (Nat.le_succ c)

namespace Parse

namespace Alike

variable {s : Parser} {c : Nat} {g g' : Grammar}

/-! ### Literals and brackets -/

theorem integer (token : Token) : GoesOn s c (fun _ => 0) (Parse.integer token) := by
  unfold Parse.integer
  exact ite (fun _ => pure rfl) fun _ => failAt Cause.noConfusion _

theorem item (hg : g.Alike s c g') (isDict : Bool) :
    Alike s c (fun _ => 1) (Parse.item g isDict) (Parse.item g' isDict) := by
  unfold Parse.item
  refine ite (fun _ => ?_) fun _ => hg.expression
  exact (hg.primary true).taking fun key => (expect _ _).ignore.bind fun _ =>
    hg.after.expression.bind fun value => pure rfl

/-- One more item of something in brackets, where the bracket is not closed. -/
theorem listStep {σ β : Type} {close : TokenKind} {what : String} {isEmpty : σ → Bool}
    {finish : σ → Bool → β} {one one' : σ → Parse (σ ⊕ β)} {items : σ}
    (hone : Alike s c (Sum.elim (fun _ => 1) fun _ => 0) (one items) (one' items)) :
    Alike s c (Sum.elim (fun _ => 1) fun _ => 0) (Syntax.listStep close what isEmpty finish one items)
      (Syntax.listStep close what isEmpty finish one' items) := by
  unfold Syntax.listStep
  refine (skip close).bind fun _ => ite (fun _ => pure rfl) fun _ => ?_
  refine ite (fun _ => ?_) fun _ => hone
  exact (expect _ _).ignore.bind fun _ => (skip close).bind fun _ => ite (fun _ => pure rfl) fun _ => hone

theorem itemStep {β : Type} (hg : g.Alike s c g') (isDict : Bool) (items : List Node) :
    Alike s c (Sum.elim (fun _ => 1) fun _ : β => 0) (Syntax.itemStep g isDict items)
      (Syntax.itemStep g' isDict items) :=
  (item hg isDict).bindTaking fun _ => pure rfl

theorem items (hg : g.Alike s c g') (close : TokenKind) (isDict : Bool) :
    Alike s c (fun _ => 0) (Parse.items g close isDict) (Parse.items g' close isDict) := by
  rw [Syntax.items_eq, Syntax.items_eq]
  exact iterate (fun read => listStep (itemStep hg isDict read)) []

theorem bracketed (hg : g.Alike s c g') (opening : Token) :
    Alike s c (fun _ => 0) (Parse.bracketed g opening) (Parse.bracketed g' opening) := by
  unfold Parse.bracketed
  split
  · refine (items hg _ _).bind fun r => ?_
    split
    · exact pure rfl
    · exact pure rfl
  · exact (items hg _ _).bind fun _ => pure rfl
  · exact (items hg _ _).bind fun _ => pure rfl

theorem atom (hg : g.Alike s (c + 1) g') : Alike s c (fun _ => 1) (Parse.atom g) (Parse.atom g') := by
  unfold Parse.atom
  refine nextThen (endOfFile _) fun t => ?_
  dsimp only
  split
  all_goals first | exact pure rfl | exact integer t | exact bracketed hg t | exact failAt Cause.noConfusion _

/-! ### Arguments, subscripts and filters -/

theorem argument (hg : g.Alike s c g') (positional keywords : List Node) :
    Alike s c (fun _ => 1) (Parse.argument g positional keywords)
      (Parse.argument g' positional keywords) := by
  unfold Parse.argument
  refine hg.expression.taking fun argument => (skipValue _ _).bind fun _ => ite (fun _ => ?_) fun _ => ?_
  · exact guard (failAt Cause.noConfusion _) fun _ => hg.after.expression.bind fun _ => pure rfl
  · exact ite (fun _ => failAt Cause.noConfusion _) fun _ => pure rfl

theorem argumentStep (hg : g.Alike s c g') (read : Syntax.Gathered) :
    Alike s c (Sum.elim (fun _ => 1) fun _ => 0) (Syntax.argumentStep g read)
      (Syntax.argumentStep g' read) :=
  (argument hg read.1 read.2).bindTaking fun _ => pure rfl

theorem signature (hg : g.Alike s (c + 1) g') :
    Alike s c (fun _ => 1) (Parse.signature g) (Parse.signature g') := by
  rw [Syntax.signature_eq, Syntax.signature_eq]
  refine (expect _ _).taking fun opening => ?_
  exact (iterate (fun read => listStep (argumentStep hg read)) _).bind fun _ => pure rfl

theorem sliceStep (hg : g.Alike s c g') (here : Position) (start stop : Option Node) :
    Alike s c (fun _ => 1) (Syntax.sliceStep g here start stop)
      (Syntax.sliceStep g' here start stop) := by
  have hend : ∀ step : Option Node, GoesOn s c (fun _ => 1) (do
      discard <| Parse.expect .rightBracket "`]`"
      return Node.slice here start stop step) :=
    fun _ => (expect _ _).dropping.taking fun _ => pure rfl
  unfold Syntax.sliceStep
  refine (skip _).bind fun _ => ite (fun _ => ?_) fun _ => given (hend none)
  exact (peekKind 0).bind fun _ => ite (fun _ => given (hend none)) fun _ => hg.expression.present.bind hend

theorem sliceStop (hg : g.Alike s c g') (here : Position) (start : Option Node) :
    Alike s c (fun _ => 1) (Syntax.sliceStop g here start) (Syntax.sliceStop g' here start) := by
  unfold Syntax.sliceStop
  refine (peekKind 0).bind fun _ => ?_
  split
  · exact given (sliceStep hg here start none)
  · exact given (sliceStep hg here start none)
  · exact hg.expression.present.bind fun stop => sliceStep hg here start stop

theorem subscriptEnd (hg : g.Alike s c g') (here : Position) (start : Option Node) :
    Alike s c (fun _ => 1) (Syntax.subscriptEnd g here start) (Syntax.subscriptEnd g' here start) := by
  unfold Syntax.subscriptEnd
  refine (skip _).bind fun colon => ?_
  cases start with
  | none => exact sliceStop hg _ none
  | some index =>
      cases colon with
      | false => exact (expect _ _).dropping.taking fun _ => pure rfl
      | true => exact sliceStop hg _ (some index)

theorem subscript (hg : g.Alike s c g') :
    Alike s c (fun _ => 1) (Parse.subscript g) (Parse.subscript g') := by
  rw [Syntax.subscript_eq, Syntax.subscript_eq]
  refine get.bind fun p => (peekKind 0).bind fun _ => ite (fun _ => ?_) fun _ => ?_
  · exact given (subscriptEnd hg p.lexer.position none)
  · exact hg.expression.present.bind fun start => subscriptEnd hg p.lexer.position start

/-- A name of several parts has a point and another name after it. -/
theorem filterStep (name : String) :
    GoesOn s c (Sum.elim (fun _ => 1) fun _ => 0) (Syntax.filterStep name) := by
  unfold Syntax.filterStep
  refine (peekIs _ _ _).bind fun _ => ite (fun _ => ?_) fun _ => pure rfl
  refine peekKindThen (pure rfl) fun kind => ?_
  refine Ready.ite (fun _ => .take ?_) fun _ => Alike.ready (pure rfl)
  refine next.bind fun part => ?_
  split
  · exact pure rfl
  · exact pure rfl

theorem filterName : GoesOn s c (fun _ => 1) Parse.filterName := by
  rw [Syntax.filterName_eq]
  exact (expect _ _).taking fun first => iterate filterStep first.value

theorem member : GoesOn s c (fun _ => 1) Parse.member := by
  unfold Parse.member
  refine nextThen (endOfFile _) fun t => ?_
  dsimp only
  split
  all_goals first | exact pure rfl | exact integer t | exact failAt Cause.noConfusion _

theorem suffix? (hg : g.Alike s c g') (n : Node) :
    Alike s c (fun o => o.toList.length) (Parse.suffix? g n) (Parse.suffix? g' n) := by
  unfold Parse.suffix?
  refine (peekIs _ _ _).bind fun point => (peekKind 0).bind fun kind => ?_
  split
  · exact (signature hg.after).bindTaking fun _ => pure rfl
  · exact next.ignore.bind fun _ => (subscript hg).bindTaking fun _ => pure rfl
  · refine next.ignore.bind fun _ => filterName.bindTaking fun name => (peekKind 0).bind fun _ => ?_
    refine ite (fun _ => ?_) fun _ => pure rfl
    exact (signature hg.after.after).bind fun _ => given (pure rfl)
  · refine ite (fun _ => ?_) fun _ => pure rfl
    exact next.ignore.bind fun _ => member.bindTaking fun _ => pure rfl

theorem suffixStep (hg : g.Alike s c g') (n : Node) :
    Alike s c (Sum.elim (fun _ => 1) fun _ => 0) (Syntax.suffixStep g n) (Syntax.suffixStep g' n) := by
  refine (suffix? hg n).bindTaking fun o => ?_
  cases o with
  | some n => exact pure rfl
  | none => exact pure rfl

theorem primary (hg : g.Alike s (c + 1) g') (bare : Bool) :
    Alike s c (fun _ => 1) (Parse.primary g bare) (Parse.primary g' bare) := by
  unfold Parse.primary
  exact (atom hg).taking fun n => ite (fun _ => pure rfl) fun _ => iterate (suffixStep hg) n

/-! ### Operators -/

section

variable {operator? : Parse (Option BinaryOp)} {operand operand' : Parse Node}

theorem joinStep (hop : GoesOn s c (fun _ => 0) operator?)
    (hoperand : Alike s c (fun _ => 1) operand operand') (left : Node) :
    Alike s c (Sum.elim (fun _ => 1) fun _ => 0) (Syntax.joinStep operator? operand left)
      (Syntax.joinStep operator? operand' left) := by
  refine hop.bind fun op => ?_
  cases op with
  | some op => exact hoperand.bindTaking fun _ => pure rfl
  | none => exact pure rfl

/-- Operands of one level, the first of which is there. -/
theorem joined (hop : GoesOn s (c + 1) (fun _ => 0) operator?)
    (hoperand : Alike s c (fun _ => 1) operand operand') :
    Alike s c (fun _ => 1) (operand >>= Parse.iterate (Syntax.joinStep operator? operand))
      (operand' >>= Parse.iterate (Syntax.joinStep operator? operand')) :=
  hoperand.taking fun first => iterate (joinStep hop (hoperand.later (Nat.le_succ c))) first

end

theorem power (hg : g.Alike s (c + 1) g') :
    Alike s c (fun _ => 1) (Parse.power g) (Parse.power g') := by
  unfold Parse.power
  refine (primary hg false).taking fun base => (skipValue _ _).bind fun _ => ?_
  exact ite (fun _ => hg.unary.bind fun _ => pure rfl) fun _ => pure rfl

theorem unary (hg : g.Alike s (c + 1) g') :
    Alike s c (fun _ => 1) (Parse.unary g) (Parse.unary g') := by
  unfold Parse.unary
  refine (peek 0).bind fun t => ?_
  dsimp only
  split
  · exact (expect _ _).taking fun token => hg.unary.bind fun _ => pure rfl
  · exact power hg

theorem productOperator? : GoesOn s c (fun _ => 0) Parse.productOperator? := by
  unfold Parse.productOperator?
  repeat refine (skipValue _ _).bind fun _ => ite (fun _ => pure rfl) fun _ => ?_
  exact pure rfl

theorem sumOperator? : GoesOn s c (fun _ => 0) Parse.sumOperator? := by
  unfold Parse.sumOperator?
  repeat refine (skipValue _ _).bind fun _ => ite (fun _ => pure rfl) fun _ => ?_
  exact (skip _).bind fun _ => ite (fun _ => pure rfl) fun _ => pure rfl

theorem product (hg : g.Alike s (c + 1) g') :
    Alike s c (fun _ => 1) (Parse.product g) (Parse.product g') := by
  rw [Syntax.product_eq, Syntax.product_eq]
  exact joined productOperator? (unary hg)

theorem sum (hg : g.Alike s (c + 1) g') : Alike s c (fun _ => 1) (Parse.sum g) (Parse.sum g') := by
  rw [Syntax.sum_eq, Syntax.sum_eq]
  exact joined sumOperator? (product hg)

theorem comparisonOperator? : GoesOn s c (fun _ => 0) Parse.comparisonOperator? :=
  (peek 0).bind fun _ => pure rfl

theorem within? : GoesOn s c (fun _ => 0) Parse.within? := by
  have hrest : ∀ negated : Bool, GoesOn s c (fun _ => 0) (do
        if negated then
          discard Parse.next
          discard Parse.next
          return some true
        if ← Parse.skipSymbol "in" then return some false
        return none) := fun _ =>
    ite (fun _ => next.ignore.bind fun _ => next.ignore.bind fun _ => pure rfl) fun _ =>
      (skipSymbol _).bind fun _ => ite (fun _ => pure rfl) fun _ => pure rfl
  unfold Parse.within?
  refine (peekIs _ _ _).bind fun _ => ite (fun _ => ?_) fun _ => given (hrest false)
  exact (peekIs _ _ _).bind hrest

theorem is? : GoesOn s c (fun _ => 0) Parse.is? :=
  (skipSymbol _).bind fun _ =>
    ite (fun _ => (skipSymbol _).bind fun _ => pure rfl) fun _ => pure rfl

theorem chainStep (hg : g.Alike s (c + 1) g') (chain : Node × List Node) :
    Alike s c (Sum.elim (fun _ => 1) fun _ => 0) (Syntax.chainStep g chain)
      (Syntax.chainStep g' chain) := by
  unfold Syntax.chainStep
  refine comparisonOperator?.bind fun op => ?_
  cases op with
  | some op => exact (expect _ _).bind fun token => (sum hg).bindTaking fun _ => pure rfl
  | none =>
      refine within?.bind fun negated => ?_
      cases negated with
      | some negated => exact (sum hg).bindTaking fun _ => pure rfl
      | none =>
          refine is?.bind fun negated => ?_
          cases negated with
          | some negated => exact (sum hg).bindTaking fun _ => pure rfl
          | none => exact pure rfl

theorem comparison (hg : g.Alike s (c + 1) g') :
    Alike s c (fun _ => 1) (Parse.comparison g) (Parse.comparison g') := by
  rw [Syntax.comparison_eq, Syntax.comparison_eq]
  exact (sum hg).taking fun first => iterate (chainStep hg.after) (first, [])

theorem negation (hg : g.Alike s (c + 1) g') :
    Alike s c (fun _ => 1) (Parse.negation g) (Parse.negation g') := by
  unfold Parse.negation
  refine (peek 0).bind fun t => choose (skipSymbol _) ?_ (comparison hg)
  exact hg.negation.bind fun target => pure rfl

theorem andOperator? : GoesOn s c (fun _ => 0) Syntax.andOperator? :=
  (skipSymbol _).bind fun _ => pure rfl

theorem orOperator? : GoesOn s c (fun _ => 0) Syntax.orOperator? :=
  (skipSymbol _).bind fun _ => pure rfl

theorem conjunction (hg : g.Alike s (c + 1) g') :
    Alike s c (fun _ => 1) (Parse.conjunction g) (Parse.conjunction g') := by
  rw [Syntax.conjunction_eq, Syntax.conjunction_eq]
  exact joined andOperator? (negation hg)

theorem disjunction (hg : g.Alike s (c + 1) g') :
    Alike s c (fun _ => 1) (Parse.disjunction g) (Parse.disjunction g') := by
  rw [Syntax.disjunction_eq, Syntax.disjunction_eq]
  exact joined orOperator? (conjunction hg)

/-- **Expressions.** -/
theorem expression (hg : g.Alike s (c + 1) g') :
    Alike s c (fun _ => 1) (Parse.expression g) (Parse.expression g') := by
  unfold Parse.expression
  refine (disjunction hg).taking fun body => (skipSymbol _).bind fun _ => ite (fun _ => ?_) fun _ => pure rfl
  refine (disjunction hg.after).bind fun condition => (skipSymbol _).bind fun _ => ?_
  exact ite (fun _ => hg.expression.present.bind fun _ => pure rfl) fun _ => given (pure rfl)

end Alike

end Parse

end Stencil
