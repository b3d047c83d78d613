/-
**Expressions that are read.**

Main definitions:

* `Stencil.Grammar.Sound` — a grammar that reads expressions and statements only.

Main results:

* `Stencil.Parse.Gives.primary` — a literal, a name or something in brackets, with what follows it;
* `Stencil.Parse.Gives.comparison` — a chain of comparisons;
* `Stencil.Parse.Gives.expression` — an expression is read.
-/

import Stencil.Proofs.Syntax.Parsing

set_option autoImplicit false

namespace Stencil

open Node (Evaluable Expression IsWritable Role isListOf)

/-- A statement that was read. -/
def Node.Runnable (n : Node) : Prop := n.Parsed ∧ n.isStatement = true

/-- A grammar that reads expressions and statements only. -/
structure Grammar.Sound (g : Grammar) : Prop where
  expression : g.expression.Gives Evaluable
  negation : g.negation.Gives Evaluable
  unary : g.unary.Gives Evaluable
  primary : ∀ bare, (g.primary bare).Gives Evaluable
  branch : g.branch.Gives Node.Runnable
  nodes : ∀ names, (g.nodes names).Gives fun ns => ∀ n ∈ ns, n.Runnable

namespace Node

variable {p : Position} {a b : Node}

/-! ### Expressions -/

theorem Expression.pair (ha : a.Evaluable) (hb : b.Evaluable) : (Node.pair p a b).Expression :=
  .of_children rfl trivial (by simp [isFormed, isWhole, parts, plays, ha.2, hb.2])
    (by simp [children, fields, Field.nodes, ha.1, hb.1])

theorem Evaluable.binary {op : BinaryOp} (ha : a.Evaluable) (hb : b.Evaluable) :
    (Node.binary p op a b).Evaluable :=
  ⟨.of_children rfl trivial (by simp [isFormed, isWhole, parts, plays, ha.2, hb.2])
    (by simp [children, fields, Field.nodes, ha.1, hb.1]), rfl⟩

theorem Evaluable.unary {op : UnaryOp} (ha : a.Evaluable) : (Node.unary p op a).Evaluable :=
  ⟨.of_children rfl trivial (by simp [isFormed, isWhole, parts, plays, ha.2])
    (by simp [children, fields, Field.nodes, ha.1]), rfl⟩

theorem Expression.operand {op : Comparison} (ha : a.Evaluable) :
    (Node.operand p op a).Expression :=
  .of_children rfl trivial (by simp [isFormed, isWhole, parts, plays, ha.2])
    (by simp [children, fields, Field.nodes, ha.1])

theorem Evaluable.compare {operands : List Node} (ha : a.Evaluable)
    (hoperands : ∀ n ∈ operands, n.Expression ∧ n.isOperand = true) :
    (Node.compare p a operands).Evaluable :=
  ⟨.of_children rfl trivial
    (by simpa [isFormed, isWhole, parts, plays, eachAs, ha.2] using fun n hn => (hoperands n hn).2)
    (by simpa [children, fields, Field.nodes, ha.1] using fun n hn => (hoperands n hn).1), rfl⟩

theorem Evaluable.choice {otherwise : Option Node} (ha : a.Evaluable) (hb : b.Evaluable)
    (hotherwise : ∀ n, otherwise = some n → n.Evaluable) :
    (Node.choice p a b otherwise).Evaluable :=
  ⟨.of_children rfl trivial
    (by simpa [isFormed, isWhole, parts, plays, eachAs, ha.2, hb.2]
      using fun n hn => (hotherwise n hn).2)
    (by simpa [children, fields, Field.nodes, ha.1, hb.1] using fun n hn => (hotherwise n hn).1),
    rfl⟩

theorem Evaluable.lookup (ha : a.Evaluable) (hb : b.Expression) (hkey : b.plays .key = true) :
    (Node.lookup p a b).Evaluable :=
  ⟨.of_children rfl trivial
    (by simpa [isFormed, isWhole, parts, plays, ha.2] using hkey)
    (by simp [children, fields, Field.nodes, ha.1, hb]), rfl⟩

theorem Expression.slice {start stop step : Option Node}
    (hstart : ∀ n, start = some n → n.Evaluable) (hstop : ∀ n, stop = some n → n.Evaluable)
    (hstep : ∀ n, step = some n → n.Evaluable) : (Node.slice p start stop step).Expression := by
  have hpart : ∀ c ∈ (Node.slice p start stop step).children, c.Evaluable := by
    intro c hc
    simp only [children, fields, Field.nodes, List.flatMap_cons, List.flatMap_nil, List.append_nil,
      List.mem_append, Option.mem_toList] at hc
    rcases hc with hc | hc | hc
    · exact hstart c hc
    · exact hstop c hc
    · exact hstep c hc
  refine .of_children rfl trivial (isFormed_iff.2 ⟨rfl, fun r c hc => ?_⟩) fun c hc => (hpart c hc).1
  have hvalue := (hpart c (mem_children_of_mem_parts hc)).2
  obtain rfl : r = .value := by
    simp only [parts, eachAs, List.mem_append, List.mem_map] at hc
    rcases hc with (⟨_, _, heq⟩ | ⟨_, _, heq⟩) | ⟨_, _, heq⟩ <;> cases heq <;> rfl
  exact hvalue

theorem Evaluable.call (ha : a.Evaluable) (hb : b.Expression) (hargs : b.plays .arguments = true) :
    (Node.call p a b).Evaluable :=
  ⟨.of_children rfl ⟨ha.1.1, hb.1⟩ (by simpa [isFormed, isWhole, parts, plays, ha.2] using hargs)
    (by simp [children, fields, Field.nodes, ha.1, hb]), rfl⟩

theorem Evaluable.filter {name : String} (ha : a.Expression) (hargs : a.plays .arguments = true) :
    (Node.filter p name a).Evaluable :=
  ⟨.of_children rfl trivial (by simpa [isFormed, isWhole, parts, plays] using hargs)
    (by simp [children, fields, Field.nodes, ha]), rfl⟩

/-- A list of expressions, or of pairs of them. -/
theorem Evaluable.group {kind : GroupKind} {ns : List Node} {r : Role}
    (hkind : kind = .array ∧ r = .value ∨ kind = .dict ∧ r = .entry)
    (h : ∀ n ∈ ns, n.Expression ∧ n.plays r = true) : (Node.group kind p ns).Evaluable := by
  have hformed : (Node.group kind p ns).isFormed = true := by
    rcases hkind with ⟨rfl, rfl⟩ | ⟨rfl, rfl⟩ <;>
      simpa [isFormed, isWhole, parts, eachAs] using fun n hn => (h n hn).2
  rcases hkind with ⟨rfl, rfl⟩ | ⟨rfl, rfl⟩ <;>
    exact ⟨.group (by decide) (by decide) hformed fun n hn => (h n hn).1, rfl⟩

theorem isFormed_arguments {ns : List Node} (h : isListOf hasValue ns = true) :
    (Node.sequence p ns).isFormed = true := by
  refine isFormed_iff.2 ⟨rfl, fun r c hc => ?_⟩
  obtain ⟨m, hm, rfl, rfl⟩ : ∃ m ∈ ns, Role.member = r ∧ m = c := by
    simpa [parts, eachAs, Node.sequence] using hc
  rcases of_isListOf h m hm with hm | hm <;> simp [plays, hm]

/-- The arguments of a call: expressions, and keywords at the end. -/
theorem Expression.arguments {ns : List Node} (h : ∀ n ∈ ns, n.Expression)
    (hlist : isListOf hasValue ns = true) :
    (Node.sequence p ns).Expression ∧ (Node.sequence p ns).plays .arguments = true :=
  ⟨.group (by decide) (by decide) (isFormed_arguments hlist) h, hlist⟩

/-- Keywords, the last of a list of arguments. -/
theorem Expression.keywords {ns : List Node} (h : ∀ n ∈ ns, n.Expression ∧ n.isKeyword = true) :
    (Node.group .keywords p ns).Expression :=
  .group (by decide) (by decide)
    (by simpa [isFormed, isWhole, parts, eachAs, plays] using fun n hn => (h n hn).2)
    fun n hn => (h n hn).1

end Node

namespace Parse.Gives

variable {g : Grammar}

/-! ### Literals and brackets -/

theorem integer (token : Token) : Gives Evaluable (Parse.integer token) := by
  unfold Parse.integer
  dsimp only
  split
  · exact pure (.literal _ _)
  · exact failAt rfl _

/-- What stands between commas in brackets: a pair or an expression. -/
def Item (isDict : Bool) (n : Node) : Prop :=
  n.Expression ∧ n.plays (if isDict then .entry else .value) = true

/-- A key that is a name is read as a text. -/
theorem key_evaluable {key : Node} (h : key.Evaluable) :
    (match key with
      | .symbol p name => Node.stringLiteral p name
      | key => key).Evaluable := by
  split
  · exact .literal _ _
  · exact h

theorem item (hg : g.Sound) (isDict : Bool) : Gives (Item isDict) (Parse.item g isDict) := by
  unfold Parse.item
  split
  · rename_i hdict
    subst hdict
    refine (hg.primary true).bind fun key hkey => ?_
    refine (expect _ _).ignore.bind fun _ _ => ?_
    exact hg.expression.bind fun value hvalue => pure ⟨.pair (key_evaluable hkey) hvalue, rfl⟩
  · rename_i hdict
    obtain rfl : isDict = false := by simpa using hdict
    exact hg.expression

theorem items (hg : g.Sound) (close : TokenKind) (isDict : Bool) :
    Gives (fun r => ∀ n ∈ r.1, Item isDict n) (Parse.items g close isDict) := by
  have hmore : ∀ ns : List Node, (∀ n ∈ ns, Item isDict n) →
      Gives (Sum.elim (fun ns : List Node => ∀ n ∈ ns, Item isDict n)
        fun r : List Node × Bool => ∀ n ∈ r.1, Item isDict n)
        (do return Sum.inl (ns ++ [← Parse.item g isDict]) : Parse (List Node ⊕ List Node × Bool)) := by
    intro ns hns
    refine (item hg isDict).bind fun n hn => pure ?_
    exact List.forall_mem_append.2 ⟨hns, List.forall_mem_singleton.2 hn⟩
  unfold Parse.items
  refine iterate (Q := fun ns : List Node => ∀ n ∈ ns, Item isDict n)
    (fun _ h => by simp at h) fun ns hns => ?_
  refine (skip _).bind fun closed _ => ?_
  split
  · exact pure hns
  · dsimp only
    split
    · refine (expect _ _).ignore.bind fun _ _ => (skip _).bind fun _ _ => ?_
      split
      · exact pure hns
      · exact hmore ns hns
    · exact hmore ns hns

theorem bracketed (hg : g.Sound) (opening : Token) :
    Gives Evaluable (Parse.bracketed g opening) := by
  unfold Parse.bracketed
  split
  · refine (items hg _ _).bind fun r hr => ?_
    split
    · rename_i one
      exact pure (hr one List.mem_cons_self)
    · exact pure (.group (.inl ⟨rfl, rfl⟩) hr)
  · exact (items hg _ _).bind fun r hr => pure (.group (.inl ⟨rfl, rfl⟩) hr)
  · exact (items hg _ _).bind fun r hr => pure (.group (.inr ⟨rfl, rfl⟩) hr)

theorem atom (hg : g.Sound) : Gives Evaluable (Parse.atom g) := by
  unfold Parse.atom
  refine next.bind fun t ht => ?_
  cases t with
  | none => exact endOfFile _
  | some token =>
      dsimp only
      split
      · exact pure (.literal _ _)
      · exact integer token
      · exact pure (.literal _ _)
      · exact pure (.literal _ _)
      · exact pure (.literal _ _)
      · exact pure (.literal _ _)
      · rename_i hkind
        exact pure (.symbol (ht token rfl hkind))
      · exact bracketed hg token
      · exact bracketed hg token
      · exact bracketed hg token
      · exact failAt rfl _

/-! ### Arguments, subscripts and filters -/

/-- Arguments that are expressions, positional ones and by keyword. -/
def Arguments (r : List Node × List Node) : Prop :=
  (∀ n ∈ r.1, n.Evaluable) ∧ ∀ n ∈ r.2, n.Expression ∧ n.isKeyword = true

theorem argument (hg : g.Sound) {positional keywords : List Node}
    (h : Arguments (positional, keywords)) :
    Gives Arguments (Parse.argument g positional keywords) := by
  unfold Parse.argument
  refine hg.expression.bind fun argument hargument => (skipValue _ _).bind fun _ _ => ?_
  split
  · have hrest : argument.isSymbol = true → Gives Arguments (do
        let value ← g.expression
        return (positional, keywords ++ [.pair argument.position argument value])) :=
      fun hname => hg.expression.bind fun value hvalue => pure ⟨h.1,
        List.forall_mem_append.2 ⟨h.2, List.forall_mem_singleton.2 ⟨.pair hargument hvalue, hname⟩⟩⟩
    cases hname : argument.asSymbol? with
    | none => exact bind (Q := fun _ => False) (failAt rfl _) fun _ h => h.elim
    | some name => exact hrest (by simp [Node.isSymbol, hname])
  · split
    · exact failAt rfl _
    · exact pure ⟨List.forall_mem_append.2 ⟨h.1, List.forall_mem_singleton.2 hargument⟩, h.2⟩

/-- Arguments in parentheses are a sequence of expressions, with keywords at the end. -/
theorem signature (hg : g.Sound) :
    Gives (fun n => n.Expression ∧ n.plays .arguments = true) (Parse.signature g) := by
  unfold Parse.signature
  refine (expect _ _).bind fun opening _ => ?_
  refine bind (iterate (Q := Arguments) (R := Arguments) ?_ ?_)
    fun ⟨positional, keywords⟩ ⟨hpositional, hkeywords⟩ => pure (Expression.arguments ?_ ?_)
  · exact ⟨fun _ h => by simp at h, fun _ h => by simp at h⟩
  · rintro ⟨positional, keywords⟩ h
    have hargument := (argument hg h).bind fun r hr =>
      pure (Q := Sum.elim Arguments Arguments) (a := .inl r) hr
    refine (skip _).bind fun _ _ => ?_
    split
    · exact pure h
    · dsimp only
      split
      · refine (expect _ _).ignore.bind fun _ _ => (skip _).bind fun _ _ => ?_
        split
        · exact pure h
        · exact hargument
      · exact hargument
  · refine List.forall_mem_append.2 ⟨fun n hn => (hpositional n hn).1, ?_⟩
    split
    · exact fun _ h => by simp at h
    · exact List.forall_mem_singleton.2 (.keywords hkeywords)
  · have hvalues : ∀ n ∈ positional, n.hasValue = true := fun n hn => (hpositional n hn).2
    split
    · rw [List.append_nil]
      exact Node.isListOf_of_all hvalues
    · exact Node.isListOf_concat.2 ⟨hvalues, .inr rfl⟩

/-- A part that may be missing is an expression if it is there. -/
def Optional (n : Option Node) : Prop := ∀ m, n = some m → m.Evaluable

theorem optional (hg : g.Sound) (present : Bool) :
    Gives Optional (if present then some <$> g.expression else Pure.pure none) := by
  split
  · exact hg.expression.map fun n hn m hm => by cases hm; exact hn
  · exact pure fun _ h => by cases h

/-- What stands between square brackets is an index or a slice. -/
def Key (n : Node) : Prop := n.Expression ∧ n.plays .key = true

theorem key_of_evaluable {n : Node} (h : n.Evaluable) : Key n :=
  ⟨h.1, by simp [Node.plays, h.2]⟩

theorem absent : Gives Optional (Pure.pure none : Parse (Option Node)) := pure fun _ h => by cases h

theorem present (hg : g.Sound) : Gives Optional (some <$> g.expression) := optional hg true

/-- What follows the end of a slice. -/
theorem sliceStep (hg : g.Sound) (here : Position) {start stop : Option Node}
    (hstart : Optional start) (hstop : Optional stop) :
    Gives Key (do
      let step ←
        if ← Parse.skip .colon then
          if (← Parse.peekKind 0) = some .rightBracket then Pure.pure none
          else some <$> g.expression
        else Pure.pure none
      discard <| Parse.expect .rightBracket "`]`"
      return Node.slice ((start.map Node.position).getD here) start stop step) := by
  have hend : ∀ step, Optional step → Gives Key (do
      discard <| Parse.expect .rightBracket "`]`"
      return Node.slice ((start.map Node.position).getD here) start stop step) :=
    fun step hstep => (expect _ _).ignore.bind fun _ _ => pure ⟨.slice hstart hstop hstep, rfl⟩
  refine (skip _).bind fun _ _ => ?_
  split
  · refine (peekKind 0).bind fun _ _ => ?_
    split
    · exact absent.bind hend
    · exact (present hg).bind hend
  · exact absent.bind hend

/-- What follows an index, or the start of a slice. -/
theorem sliceStop (hg : g.Sound) (here : Position) (start : Option Node) (hstart : Optional start) :
    Gives Key (do
      match start, ← Parse.skip .colon with
      | some index, false =>
        discard <| Parse.expect .rightBracket "`]`"
        return index
      | start, _ =>
        let stop ←
          match ← Parse.peekKind 0 with
          | some .colon | some .rightBracket => Pure.pure none
          | _ => some <$> g.expression
        let step ←
          if ← Parse.skip .colon then
            if (← Parse.peekKind 0) = some .rightBracket then Pure.pure none
            else some <$> g.expression
          else Pure.pure none
        discard <| Parse.expect .rightBracket "`]`"
        return Node.slice ((start.map Node.position).getD here) start stop step) := by
  refine (skip _).bind fun _ _ => ?_
  split
  · rename_i index
    exact (expect _ _).ignore.bind fun _ _ => pure (key_of_evaluable (hstart index rfl))
  · refine (peekKind 0).bind fun _ _ => ?_
    split
    · exact absent.bind fun _ h => sliceStep hg here hstart h
    · exact absent.bind fun _ h => sliceStep hg here hstart h
    · exact (present hg).bind fun _ h => sliceStep hg here hstart h

theorem subscript (hg : g.Sound) : Gives Key (Parse.subscript g) := by
  unfold Parse.subscript
  refine get.bind fun p _ => (peekKind 0).bind fun _ _ => ?_
  split
  · exact absent.bind (sliceStop hg p.lexer.position)
  · exact (present hg).bind (sliceStop hg p.lexer.position)

theorem filterName : Gives (fun _ => True) Parse.filterName := by
  unfold Parse.filterName
  refine (expect _ _).bind fun first _ => iterate (Q := fun _ => True) trivial fun name _ => ?_
  have hdone : Gives (Sum.elim (fun _ : String => True) fun _ : String => True)
      (Pure.pure (.inr name) : Parse (String ⊕ String)) := pure trivial
  refine (peekIs _ _ _).bind fun _ _ => ?_
  split
  · refine (peekKind 1).bind fun _ _ => ?_
    split
    · refine next.ignore.bind fun _ _ => next.bind fun t _ => ?_
      cases t with
      | some part => exact pure trivial
      | none => exact pure trivial
    · exact hdone
  · exact hdone

theorem member : Gives Evaluable Parse.member := by
  unfold Parse.member
  refine next.bind fun t _ => ?_
  cases t with
  | none => exact endOfFile _
  | some token =>
      dsimp only
      split
      · exact pure (.literal _ _)
      · exact integer token
      · exact failAt rfl _

/-- What a filter is given beside what it filters. -/
def Filtered (more : List Node) : Prop :=
  (∀ m ∈ more, m.Expression) ∧ isListOf Node.hasValue more = true

theorem Filtered.nil : Filtered [] := ⟨fun _ h => by simp at h, rfl⟩

theorem Filtered.of_arguments {n : Node} (h : n.Expression) (hargs : n.plays .arguments = true) :
    Filtered n.members := by
  refine ⟨fun m hm => h.member hm, ?_⟩
  cases n with
  | group kind p ns =>
      cases kind with
      | sequence => exact hargs
      | _ => cases hargs
  | _ => cases hargs

/-- What follows a node, if anything does, makes a larger expression. -/
theorem suffix (hg : g.Sound) {n : Node} (hn : n.Evaluable) :
    Gives Optional (Parse.suffix? g n) := by
  have hsome : ∀ {m : Node}, m.Evaluable → Optional (some m) := fun hm k hk => by
    cases hk
    exact hm
  unfold Parse.suffix?
  refine (peekIs _ _ _).bind fun point _ => (peekKind 0).bind fun _ _ => ?_
  split
  · exact (signature hg).bind fun arguments harguments =>
      pure (hsome (.call hn harguments.1 harguments.2))
  · exact next.ignore.bind fun _ _ => (subscript hg).bind fun key hkey =>
      pure (hsome (.lookup hn hkey.1 hkey.2))
  · refine next.ignore.bind fun _ _ => filterName.bind fun name _ => ?_
    have hfilter : ∀ more : List Node, Filtered more →
        Gives Optional (do return some (.filter n.position name (.sequence n.position (n :: more)))) := by
      intro more hmore
      have harguments := Expression.arguments (p := n.position)
        (List.forall_mem_cons.2 ⟨hn.1, hmore.1⟩) (Node.isListOf_cons hn.2 hmore.2)
      exact pure (hsome (.filter harguments.1 harguments.2))
    refine (peekKind 0).bind fun _ _ => ?_
    split
    · exact (signature hg).bind fun arguments harguments =>
        bind (pure (Filtered.of_arguments harguments.1 harguments.2)) hfilter
    · exact bind (pure .nil) hfilter
  · split
    · exact next.ignore.bind fun _ _ => member.bind fun key hkey =>
        pure (hsome (.lookup hn (key_of_evaluable hkey).1 (key_of_evaluable hkey).2))
    · exact pure fun _ h => by cases h

theorem primary (hg : g.Sound) (bare : Bool) : Gives Evaluable (Parse.primary g bare) := by
  unfold Parse.primary
  refine (atom hg).bind fun n hn => ?_
  split
  · exact pure hn
  · refine iterate (Q := Evaluable) hn fun n hn => (suffix hg hn).bind fun m hm => ?_
    cases m with
    | some m => exact pure (hm m rfl)
    | none => exact pure hn

/-! ### Operators -/

theorem leftAssociative {operator : Parse (Option BinaryOp)} {operand : Parse Node}
    (hoperator : Gives (fun _ => True) operator) (hoperand : Gives Evaluable operand) :
    Gives Evaluable (Parse.leftAssociative operator operand) := by
  unfold Parse.leftAssociative
  refine hoperand.bind fun first hfirst => iterate (Q := Evaluable) hfirst fun left hleft =>
    hoperator.bind fun op _ => ?_
  cases op with
  | some op => exact hoperand.bind fun right hright => pure (.binary hleft hright)
  | none => exact pure hleft

theorem power (hg : g.Sound) : Gives Evaluable (Parse.power g) := by
  unfold Parse.power
  refine (primary hg false).bind fun base hbase => (skipValue _ _).bind fun _ _ => ?_
  split
  · exact hg.unary.bind fun exponent hexponent => pure (.binary hbase hexponent)
  · exact pure hbase

theorem unary (hg : g.Sound) : Gives Evaluable (Parse.unary g) := by
  unfold Parse.unary
  refine (peek 0).bind fun t _ => ?_
  dsimp only
  split
  · exact (expect _ _).bind fun token _ => hg.unary.bind fun target htarget =>
      pure (.unary htarget)
  · exact power hg

/-- One of two operators is taken if it is next. -/
theorem orElse {α : Type} {taken : Parse Bool} {a : α} {rest : Parse α}
    (htaken : Gives (fun _ => True) taken) (hrest : Gives (fun _ => True) rest) :
    Gives (fun _ => True) (do if ← taken then return a else rest) := by
  refine htaken.bind fun b _ => ?_
  split
  · exact pure trivial
  · exact hrest

theorem productOperator : Gives (fun _ => True) productOperator? :=
  orElse (skipValue _ _) <| orElse (skipValue _ _) <| orElse (skipValue _ _) <|
    orElse (skipValue _ _) (pure trivial)

theorem sumOperator : Gives (fun _ => True) sumOperator? :=
  orElse (skipValue _ _) <| orElse (skipValue _ _) <| orElse (skip _) (pure trivial)

theorem sum (hg : g.Sound) : Gives Evaluable (Parse.sum g) :=
  leftAssociative sumOperator (leftAssociative productOperator (unary hg))

theorem within : Gives (fun _ => True) within? := by
  have hrest : Gives (fun _ => True) (do
      if ← Parse.skipSymbol "in" then return some false
      return none) := orElse (skipSymbol _) (pure trivial)
  have htaken : ∀ negated : Bool, Gives (fun _ => True) (do
      if negated then
        discard Parse.next
        discard Parse.next
        return some true
      if ← Parse.skipSymbol "in" then return some false
      return none) := by
    intro negated
    split
    · exact next.ignore.bind fun _ _ => next.ignore.bind fun _ _ => pure trivial
    · exact hrest
  unfold within?
  refine (peekIs _ _ _).bind fun _ _ => ?_
  split
  · exact (peekIs _ _ _).bind fun negated _ => htaken negated
  · exact hrest

theorem is : Gives (fun _ => True) is? := by
  unfold is?
  refine (skipSymbol _).bind fun _ _ => ?_
  split
  · exact (skipSymbol _).bind fun _ _ => pure trivial
  · exact pure trivial

/-- What a chain of comparisons has read so far. -/
def Chain (r : Node × List Node) : Prop :=
  r.1.Evaluable ∧ ∀ n ∈ r.2, n.Expression ∧ n.isOperand = true

theorem gathered {first : Node} {operands : List Node} (h : Chain (first, operands)) :
    (Parse.gathered first operands).Evaluable := by
  unfold Parse.gathered
  split
  · exact h.1
  · exact .compare h.1 h.2

theorem negatedIf {n : Node} (hn : n.Evaluable) (negated : Bool) :
    (Parse.negatedIf negated n).Evaluable := by
  unfold Parse.negatedIf
  split
  · exact .unary hn
  · exact hn

/-- A chain of comparisons is an expression. -/
theorem comparison (hg : g.Sound) : Gives Evaluable (Parse.comparison g) := by
  unfold Parse.comparison
  refine (sum hg).bind fun first hfirst => iterate (Q := Chain) ⟨hfirst, fun _ h => by simp at h⟩ ?_
  rintro ⟨first, operands⟩ h
  refine bind (Q := fun _ => True) ((peek 0).bind fun _ _ => pure trivial) fun op _ => ?_
  have hright : ∀ (op : BinaryOp) (negated : Bool), Gives (Sum.elim Chain Evaluable) (do
      let right ← Parse.sum g
      return .inl (Parse.negatedIf negated
        (Parse.binary op (Parse.gathered first operands) right), [])) := by
    intro op negated
    refine (sum hg).bind fun right hright => pure ⟨?_, fun _ h => by simp at h⟩
    exact negatedIf (.binary (gathered h) hright) negated
  cases op with
  | some op =>
      refine (expect _ _).bind fun token _ => (sum hg).bind fun value hvalue => pure ⟨h.1, ?_⟩
      exact List.forall_mem_append.2 ⟨h.2, List.forall_mem_singleton.2 ⟨.operand hvalue, rfl⟩⟩
  | none =>
      refine within.bind fun negated _ => ?_
      cases negated with
      | some negated => exact hright .within negated
      | none =>
          refine is.bind fun negated _ => ?_
          cases negated with
          | some negated => exact hright .test negated
          | none => exact pure (gathered h)

theorem negation (hg : g.Sound) : Gives Evaluable (Parse.negation g) := by
  unfold Parse.negation
  refine (peek 0).bind fun _ _ => (skipSymbol _).bind fun _ _ => ?_
  split
  · exact hg.negation.bind fun target htarget => pure (.unary htarget)
  · exact comparison hg

theorem disjunction (hg : g.Sound) : Gives Evaluable (Parse.disjunction g) :=
  leftAssociative ((skipSymbol _).bind fun _ _ => pure trivial) <|
    leftAssociative ((skipSymbol _).bind fun _ _ => pure trivial) (negation hg)

/-- An expression is read. -/
theorem expression (hg : g.Sound) : Gives Evaluable (Parse.expression g) := by
  unfold Parse.expression
  refine (disjunction hg).bind fun body hbody => (skipSymbol _).bind fun _ _ => ?_
  split
  · refine (disjunction hg).bind fun condition hcondition => (skipSymbol _).bind fun _ _ => ?_
    have hchoice : ∀ otherwise : Option Node, Optional otherwise →
        Gives Evaluable (do return .choice body.position condition body otherwise) :=
      fun otherwise hotherwise => pure (.choice hcondition hbody hotherwise)
    split
    · exact (optional hg true).bind hchoice
    · exact (optional hg false).bind hchoice
  · exact pure hbody

end Parse.Gives

end Stencil
