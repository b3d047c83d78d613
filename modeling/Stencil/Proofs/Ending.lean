/-
**Reading a template ends.**

The loops of the actions that read templates have a bound on their rounds, and the knot of the actions that
call each other is tied a number of times.  Neither is ever reached: a round that is not the last takes a
token, what an action does is settled by the calls that it makes behind a token, and every token leaves
less of the template.  So bounds that are large enough do not show in what is read.

Main definitions:

* `Stencil.Grammar.AgreesAt` — two grammars do the same at a parser;
* `Stencil.Parse.IsRound` — the rounds of the loops;
* `Stencil.Parser.Ends` — no loop, no call and no search for the end of a raw tag goes on without end.

Main results:

* `Stencil.Grammar.tied_alike` — a knot that is tied often enough for a parser does not run out;
* `Stencil.Config.reading_ends` — **reading ends on every template, with a tree or an error**.
-/

import Stencil.Proofs.Progress.Statements

set_option autoImplicit false

namespace Stencil

/-! ### The knot -/

namespace Grammar

variable {s : Parser} {g g' : Grammar} {hosts : List TagReader}

/-- Two grammars do the same at a parser. -/
structure AgreesAt (g g' : Grammar) (p : Parser) : Prop where
  expression : g.expression p = g'.expression p
  negation : g.negation p = g'.negation p
  unary : g.unary p = g'.unary p
  primary : ∀ bare, g.primary bare p = g'.primary bare p
  branch : g.branch p = g'.branch p
  nodes : ∀ names, g.nodes names p = g'.nodes names p

theorem tied_succ (depth : Nat) : tied hosts (depth + 1) = (tied hosts depth).step hosts := rfl

theorem Alike.agreesAt (h : g.Alike s 0 g') (ho : s.lexer.config.IsProper) : g.AgreesAt g' s where
  expression := (h.expression s (.refl s) ho).1
  negation := (h.negation s (.refl s) ho).1
  unary := (h.unary s (.refl s) ho).1
  primary bare := (h.primary bare s (.refl s) ho).1
  branch := (h.branch s (.refl s) ho).1
  nodes names := (h.nodes names s (.refl s) ho).1

/-- To be alike behind some tokens is to be alike at each parser that is so far on. -/
theorem Alike.of_ahead {c : Nat}
    (h : ∀ p, s.Ahead c p → p.lexer.config.IsProper → g.Alike p 0 g') : g.Alike s c g' where
  expression p hp ho := (h p hp ho).expression p (.refl p) ho
  negation p hp ho := (h p hp ho).negation p (.refl p) ho
  unary p hp ho := (h p hp ho).unary p (.refl p) ho
  primary bare p hp ho := (h p hp ho).primary bare p (.refl p) ho
  branch p hp ho := (h p hp ho).branch p (.refl p) ho
  nodes names p hp ho := (h p hp ho).nodes names p (.refl p) ho

/-- A grammar is alike another one where both do the same and the first goes on. -/
theorem Alike.congr {c : Nat} (h : g.Alike s c g)
    (hagrees : ∀ p, s.Ahead c p → p.lexer.config.IsProper → g.AgreesAt g' p) : g.Alike s c g' where
  expression p hp ho := ⟨(hagrees p hp ho).expression, (h.expression p hp ho).2⟩
  negation p hp ho := ⟨(hagrees p hp ho).negation, (h.negation p hp ho).2⟩
  unary p hp ho := ⟨(hagrees p hp ho).unary, (h.unary p hp ho).2⟩
  primary bare p hp ho := ⟨(hagrees p hp ho).primary bare, (h.primary bare p hp ho).2⟩
  branch p hp ho := ⟨(hagrees p hp ho).branch, (h.branch p hp ho).2⟩
  nodes names p hp ho := ⟨(hagrees p hp ho).nodes names, (h.nodes names p hp ho).2⟩

/-- **A knot that is tied often enough for a parser does not run out.**  By induction on the bound: a call
is made behind a token, where less is left and one tie fewer is needed. -/
theorem tied_alike (hhosts : ∀ host ∈ hosts, host.GoesOn) {bound depth depth' : Nat}
    (ho : s.lexer.config.IsProper) (hs : s.size ≤ bound) (h : bound ≤ depth) (h' : bound ≤ depth') :
    (tied hosts depth).Alike s 0 (tied hosts depth') := by
  induction bound generalizing s depth depth' with
  | zero => simp [Parser.size] at hs
  | succ bound ih =>
      obtain ⟨depth, rfl⟩ := Nat.exists_eq_add_one_of_ne_zero (show depth ≠ 0 by omega)
      obtain ⟨depth', rfl⟩ := Nat.exists_eq_add_one_of_ne_zero (show depth' ≠ 0 by omega)
      rw [tied_succ, tied_succ]
      -- Behind a token the parser is smaller, and the calls from there are covered by one tie fewer.
      refine Alike.step (.of_ahead fun p hp hop => ?_) hhosts
      have hsize := hp.size_le ho
      exact ih hop (by omega) (by omega) (by omega)

end Grammar

/-! ### Loops -/

namespace Parse

/-- The rounds of the loops of the actions that read templates. -/
inductive IsRound (g : Grammar) : {α β : Type} → (α → Parse (α ⊕ β)) → Prop
  | item (close : TokenKind) (isDict : Bool) : IsRound g
      (Syntax.listStep close "`,` between items" List.isEmpty Prod.mk (Syntax.itemStep g isDict))
  | argument : IsRound g (Syntax.listStep .rightParen "`,` between arguments"
      (fun read : Syntax.Gathered => read.1.isEmpty && read.2.isEmpty) (fun read _ => read)
      (Syntax.argumentStep g))
  | part : IsRound g Syntax.filterStep
  | suffix : IsRound g (Syntax.suffixStep g)
  | product : IsRound g (Syntax.joinStep productOperator? (unary g))
  | sum : IsRound g (Syntax.joinStep sumOperator? (product g))
  | conjunction : IsRound g (Syntax.joinStep Syntax.andOperator? (negation g))
  | disjunction : IsRound g (Syntax.joinStep Syntax.orOperator? (conjunction g))
  | comparison : IsRound g (Syntax.chainStep g)
  | name (what : String) : IsRound g (Syntax.nameStep what)
  | imported : IsRound g Syntax.importStep
  | node (names : List String) : IsRound g (nodeStep g [] names)

theorem IsRound.alike {α β : Type} {g : Grammar} {round : α → Parse (α ⊕ β)} {s : Parser} {c : Nat}
    (h : IsRound g round) (hg : g.Alike s c g) (a : α) :
    GoesOn s c (Sum.elim (fun _ => 1) fun _ => 0) (round a) := by
  cases h with
  | item close isDict => exact .listStep (.itemStep hg isDict a)
  | argument => exact .listStep (.argumentStep hg a)
  | part => exact .filterStep a
  | suffix => exact .suffixStep hg a
  | product => exact .joinStep .productOperator? (.unary hg.after) a
  | sum => exact .joinStep .sumOperator? (.product hg.after) a
  | conjunction => exact .joinStep .andOperator? (.negation hg.after) a
  | disjunction => exact .joinStep .orOperator? (.conjunction hg.after) a
  | comparison => exact .chainStep hg.after a
  | name what => exact .nameStep what a
  | imported => exact .importStep a
  | node names => exact .nodeStep hg.after (by simp) names a

end Parse

/-! ### Raw text -/

/-- Each start delimiter that is passed leaves less to search. -/
theorem Lexer.rawText?_fuel {d : Delimiters} (hd : d.blockStart.toList ≠ []) {name seen s : List Char}
    {fuel fuel' : Nat} (h : s.length < fuel) (h' : s.length < fuel') :
    rawText? d name fuel seen s = rawText? d name fuel' seen s := by
  induction fuel generalizing fuel' seen s with
  | zero => omega
  | succ fuel ih =>
      obtain ⟨fuel', rfl⟩ := Nat.exists_eq_add_one_of_ne_zero (show fuel' ≠ 0 by omega)
      unfold rawText?
      cases hcut : Text.cut? d.blockStart.toList s with
      | none => rfl
      | some found =>
          obtain ⟨before, after⟩ := found
          have hlength := congrArg List.length (Text.eq_of_cut? hcut)
          have hstart := List.length_pos_iff.2 hd
          simp only [List.length_append] at hlength
          cases htag : endTag? d name after with
          | some found => simp [htag]
          | none => simpa [htag] using ih (by omega) (by omega)

/-! ### Templates -/

/-- No loop, no call and no search for the end of a raw tag goes on without end: a round that is not the
last takes a token and the bound on the rounds is not reached, calls matter only behind a token, and every
token leaves less of the template. -/
structure Parser.Ends (p : Parser) (g : Grammar) : Prop where
  rounds : ∀ {α β : Type} {round : α → Parse (α ⊕ β)}, Parse.IsRound g round →
    ∀ {a a' : α} {q : Parser}, round a p = (.ok (.inl a'), q) → p.Ahead 1 q ∧ q.size < p.size
  loops : ∀ {α β : Type} {round : α → Parse (α ⊕ β)}, Parse.IsRound g round →
    ∀ (a : α) (fuel : Nat), p.size ≤ fuel →
      Parse.iterateWithin round fuel a p = Parse.iterate round a p
  calls : ∀ g' : Grammar, (∀ q, p.Ahead 1 q → q.size < p.size → g.AgreesAt g' q) →
    (g.step []).AgreesAt (g'.step []) p
  searches : ∀ (name : List Char) (fuel : Nat), p.lexer.rest.length < fuel →
    Lexer.rawText? p.lexer.config.delimiters name fuel [] p.lexer.rest =
      Lexer.rawText? p.lexer.config.delimiters name (p.lexer.rest.length + 1) [] p.lexer.rest

theorem Parser.ends {p : Parser} (ho : p.lexer.config.IsProper) {g : Grammar} (hg : g.Alike p 0 g) :
    p.Ends g where
  rounds hround a _ q h := by
    have hanswers := (hround.alike hg a p (.refl p) ho).2
    rw [h] at hanswers
    have hpq : p.Ahead 1 q := hanswers
    exact ⟨hpq, hpq.size_le ho⟩
  loops hround a fuel hfuel :=
    (Parse.Alike.iterateWithin (hround.alike hg) (.refl p) ho hfuel le_rfl a).1
  calls g' h := by
    have hcalled : g.Alike p 1 g' := hg.after.congr fun q hq hoq => h q hq (hq.size_le ho)
    exact (hcalled.step (by simp)).agreesAt ho
  searches name fuel hfuel := Lexer.rawText?_fuel ho.blockStart hfuel (Nat.lt_succ_self _)

/-- How often the knot is tied does not show in the nodes that are read, if it is often enough. -/
theorem Parse.nodes_tied {p : Parser} (ho : p.lexer.config.IsProper) {depth depth' : Nat}
    (h : p.size ≤ depth) (h' : p.size ≤ depth') (names : List String) :
    AlikeAt p (fun _ => 0) (nodes (Grammar.tied [] depth) [] names)
      (nodes (Grammar.tied [] depth') [] names) := by
  have hg := Grammar.tied_alike (List.forall_mem_nil _) ho le_rfl h h'
  exact Alike.nodes hg.after (by simp) names p (.refl p) ho

/-- The tree of a template, read with a knot that is tied a number of times. -/
def Node.ofSourceTied (config : Config) (depth : Nat) (source : String) : Except TemplateError Node :=
  (Node.group .root .start) <$>
    (Parse.nodes (Grammar.tied [] depth) [] [] (Parser.ofString config source)).1

theorem Node.ofSource_eq (config : Config) (source : String) : Node.ofSource config [] source =
    Node.ofSourceTied config ((Parser.ofString config source).size + 1) source := by
  have hrun : Parse.run [] (fun g => Parse.nodes g [] []) (Parser.ofString config source) =
      Parse.nodes (Grammar.tied [] ((Parser.ofString config source).size + 1)) [] []
        (Parser.ofString config source) := rfl
  unfold Node.ofSource Node.ofSourceTied Parse.template
  rw [Parse.bind_eq_match, hrun]
  rcases Parse.nodes _ [] [] (Parser.ofString config source) with ⟨e | ns, q⟩
  · rfl
  · rfl

namespace Config

variable {config : Config}

theorem proper_ofString (hvalid : config.validate = .ok ()) (source : String) :
    (Parser.ofString config source).lexer.config.IsProper := Lexer.optionsOf_isProper hvalid

/-- **Reading ends on every template, with a tree or an error.**  Only a loop or a knot that ran out would
give the error of being nested too deep. -/
theorem reading_ends (hvalid : config.validate = .ok ()) :
    (∀ source e, Node.ofSource config [] source = .error e → e.cause ≠ .nestingTooDeep) ∧
      (∀ source depth, (Parser.ofString config source).size ≤ depth →
        Node.ofSourceTied config depth source = Node.ofSource config [] source) ∧
      ∀ (p : Parser) (depth : Nat), p.lexer.config = Lexer.optionsOf config → p.size ≤ depth →
        p.Ends (Grammar.tied [] depth) := by
  refine ⟨fun source e h => ?_, fun source depth hdepth => ?_, fun p depth hp hdepth => ?_⟩
  · rw [Node.ofSource_eq] at h
    have hsize := Nat.le_succ (Parser.ofString config source).size
    have hanswers := (Parse.nodes_tied (proper_ofString hvalid source) hsize hsize []).2
    unfold Node.ofSourceTied at h
    generalize Parse.nodes _ [] [] (Parser.ofString config source) = answer at h hanswers
    obtain ⟨e' | ns, q⟩ := answer
    · cases h
      exact hanswers
    · cases h
  · rw [Node.ofSource_eq]
    exact congrArg (fun answer => Node.group .root .start <$> answer.1)
      (Parse.nodes_tied (proper_ofString hvalid source) hdepth (Nat.le_succ _) []).1
  · have ho : p.lexer.config.IsProper := hp ▸ Lexer.optionsOf_isProper hvalid
    exact Parser.ends ho (Grammar.tied_alike (List.forall_mem_nil _) ho le_rfl hdepth hdepth)

/-- A template with brackets that are not closed. -/
def openBrackets : String := "\x7b% for x in ([1, \x7b% if"

/-- Reading it gives an error, in which no bound shows. -/
theorem reading_ends_openBrackets : Config.standard.validate = .ok () ∧
    (Node.ofSource .standard [] openBrackets).toOption.isNone = true ∧
    (∀ e, Node.ofSource .standard [] openBrackets = .error e → e.cause ≠ .nestingTooDeep) ∧
    (Parser.ofString .standard openBrackets).size ≤ 100 ∧
    Node.ofSourceTied .standard 100 openBrackets = Node.ofSource .standard [] openBrackets ∧
    (Parser.ofString .standard openBrackets).Ends (Grammar.tied [] 100) := by
  have hvalid : Config.standard.validate = .ok () := by decide
  have hsize : (Parser.ofString .standard openBrackets).size ≤ 100 := by decide +kernel
  obtain ⟨hends, htied, hparsers⟩ := reading_ends hvalid
  exact ⟨hvalid, by decide +kernel, hends _, hsize, htied _ _ hsize, hparsers _ _ rfl hsize⟩

end Config

end Stencil
