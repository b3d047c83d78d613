/-
**Reading statements goes on.**

The names, imports and nodes that are read one after the other each take a token, and a statement comes to
the nodes and expressions in it behind the name of its tag.

Main definitions:

* `Stencil.TagReader.GoesOn` — a host that calls a grammar at tokens to come only;
* `Stencil.Parse.closed` — the nodes of a body with what follows them.

Main results:

* `Stencil.Parse.Alike.body` — the body of a statement, whether or not it can be read;
* `Stencil.Parse.Alike.rawBody` — raw text, which is taken without looking at its tokens;
* `Stencil.Grammar.Alike.step` — **a grammar reads alike before a token if the one that it calls does
  behind it**.
-/

import Stencil.Proofs.Progress.Expressions
import Stencil.Proofs.Reading.Statements

set_option autoImplicit false

namespace Stencil

/-- A host reads its tags alike under grammars that are alike. -/
def TagReader.GoesOn (host : TagReader) : Prop :=
  ∀ (s : Parser) (c : Nat) (g g' : Grammar) (tag : Token), g.Alike s c g' →
    Parse.Alike s c (fun _ => 0) (host.read g tag) (host.read g' tag)

namespace Parse

/-! ### Bodies -/

/-- The nodes of a body are read and its tag is closed, whether they can be read or not. -/
def closed {α : Type} (x : Parse (List Node)) (k : List Node → Parse α) : Parse α := do
  let answer ← tryCatch (Except.ok <$> x) fun e => return .error e
  modify fun p => { p with opened := p.opened.drop 1 }
  k (← body.liftExcept answer)

theorem closed_apply {α : Type} (x : Parse (List Node)) (k : List Node → Parse α) (p : Parser) :
    closed x k p = match x p with
      | (.ok ns, q) => k ns { q with opened := q.opened.drop 1 }
      | (.error e, q) => (.error e, { q with opened := q.opened.drop 1 }) := by
  unfold closed
  rw [bind_eq_match, Shows.tryCatch_eq]
  dsimp only
  rw [bind_eq_match]
  rcases x p with ⟨e | ns, q⟩
  · rfl
  · rfl

theorem body_eq (g : Grammar) (opener : Token) (names : List String) :
    body g opener names = (do
      let endTag := names.getLast?.getD "end"
      modify fun p =>
        { p with opened := ⟨opener.value, endTag, opener.position.line⟩ :: p.opened }
      closed (g.nodes names) fun nodes => do
        match ← next with
        | some token =>
          if token.kind = .blockStart then
            let name := ((← peek 0).map Token.value).getD ""
            return (.sequence opener.position nodes, name)
          else body.missing opener endTag
        | none => body.missing opener endTag) := rfl

namespace Alike

variable {s p : Parser} {c : Nat} {g g' : Grammar} {tag : Token}

/-- The text of a raw tag is looked for in what was not read yet. -/
theorem rawBody (hvalue : tag.value = "raw" ∨ tag.value = "verbatim") :
    GoesOn s c (fun _ => 0) (Parse.rawBody tag) := by
  have hname : "end" ++ tag.value = "endraw" ∨ "end" ++ tag.value = "endverbatim" :=
    hvalue.imp (fun h => by rw [h]; rfl) fun h => by rw [h]; rfl
  unfold Parse.rawBody
  intro p hp ho
  refine (get p hp ho).bind fun p' q h => ?_
  cases h
  cases hbuffer : p.buffer with
  | cons u rest => exact failAt Cause.noConfusion _ p hp ho
  | nil =>
      refine (get p hp ho).bind fun p' q h => ?_
      cases h
      cases hraw : p.lexer.takeRaw ("end" ++ tag.value) with
      | none => exact failAt Cause.noConfusion _ p hp ho
      | some answer =>
          obtain ⟨raw, l⟩ := answer
          obtain ⟨text, trimBefore, hisRaw, -⟩ := takeRaw_ok hraw
          refine ⟨rfl, [.verbatim text trimBefore raw.trimAfter], ?_, Nat.zero_le _⟩
          exact ⟨_, .verbatim hname hisRaw (.nil l), by simp [hbuffer]⟩

/-! ### Ends of tags and bodies -/

theorem blockEnd (name : String) : GoesOn s c (fun _ => 1) (Parse.blockEnd name) := by
  refine nextThen (endOfFile _) fun t => ite (fun _ => ?_) fun _ => failAt Cause.noConfusion _
  exact bind (modify (fun _ => rfl) fun _ => rfl) fun _ => pure rfl

theorem finish (name : String) : GoesOn s c (fun _ => 1) (Parse.finish name) :=
  (expect _ _).ignore.bind fun _ => blockEnd name

/-- The name of a raw tag is looked at before it is taken. -/
theorem raw (hp : s.Ahead c p) (ho : p.lexer.config.IsProper) (hupcoming : p.upcoming = .ok (some tag))
    (hvalue : tag.value = "raw" ∨ tag.value = "verbatim") :
    AlikeAt p (fun _ => 0) Parse.raw Parse.raw := by
  rw [raw_eq]
  refine (expect _ _ p hp ho).bind fun tag' q h => ?_
  obtain ⟨-, hnext, htakes, -⟩ := expect_ok h
  obtain rfl : tag = tag' := by simpa [hupcoming] using hnext
  have hq : s.Ahead c q := hp.trans ⟨_, htakes, Nat.zero_le _⟩
  have hrest : GoesOn s c (fun _ => 0) (do
        discard <| Parse.blockEnd tag.value
        Parse.rawBody tag) := (blockEnd _).ignore.bind fun _ => rawBody hvalue
  exact hrest q hq (htakes.config ho ▸ ho)

/-- Whether the nodes of a body can be read or not, the tag around them is closed. -/
theorem closed {β : Type} {takes : β → Nat} {x x' : Parse (List Node)} {k : List Node → Parse β}
    (hx : Alike s c (fun _ => 0) x x') (hk : ∀ ns, GoesOn s c takes (k ns)) :
    Alike s c takes (Parse.closed x k) (Parse.closed x' k) := by
  intro p hp ho
  obtain ⟨heq, hanswers⟩ := hx p hp ho
  unfold AlikeAt
  rw [closed_apply, closed_apply, ← heq]
  refine ⟨rfl, ?_⟩
  -- The tag that is closed is no part of what is left to read.
  rcases hxp : x p with ⟨e | ns, q⟩
  · rw [hxp] at hanswers
    exact hanswers
  · rw [hxp] at hanswers
    have hpq : p.Ahead 0 { q with opened := q.opened.drop 1 } := hanswers
    exact (hk ns _ (hp.trans hpq) (hpq.config ho ▸ ho)).2.behind hpq

theorem body (hg : g.Alike s c g') (opener : Token) (names : List String) :
    Alike s c (fun _ => 0) (Parse.body g opener names) (Parse.body g' opener names) := by
  rw [body_eq, body_eq]
  refine bind (modify (fun _ => rfl) fun _ => rfl) fun _ => ?_
  refine closed (hg.nodes names) fun ns => ?_
  refine nextThen (failAt Cause.noConfusion _) fun t => ite (fun _ => ?_) fun _ => failAt Cause.noConfusion _
  exact (peek 0).bind fun _ => pure rfl

/-! ### Conditions and loops -/

theorem branch (hg : g.Alike s (c + 1) g') :
    Alike s c (fun _ => 1) (Parse.branch g) (Parse.branch g') := by
  unfold Parse.branch
  refine (expect _ _).taking fun tag => hg.expression.bind fun condition => ?_
  refine (blockEnd _).ignore.bind fun _ => (body hg _ _).bind fun r => ?_
  obtain ⟨n, closing⟩ := r
  dsimp only
  split
  · exact hg.branch.present.bind fun _ => pure rfl
  · refine ite (fun _ => ?_) fun _ => ?_
    · refine (finish _).ignore.bind fun _ => (body hg _ _).bind fun r => ?_
      exact (finish _).ignore.bind fun _ => given (pure rfl)
    · exact (finish _).ignore.bind fun _ => given (pure rfl)

theorem nameStep (what : String) (names : List Node) :
    GoesOn s c (Sum.elim (fun _ => 1) fun _ => 0) (Syntax.nameStep what names) :=
  (skip _).bind fun _ => ite (fun _ => (symbol what).bindTaking fun _ => pure rfl) fun _ => pure rfl

theorem moreNames (what : String) (first : Node) :
    GoesOn s c (fun _ => 0) (Parse.moreNames what first) := by
  rw [Syntax.moreNames_eq]
  exact iterate (nameStep what) [first]

theorem loopEnd (hg : g.Alike s c g') (tag : Token) (mode : LoopMode) (endTag : String)
    (target source body : Node) (closing : String) : Alike s c (fun _ => 0)
      (Syntax.loopEnd g tag mode endTag target source body closing)
      (Syntax.loopEnd g' tag mode endTag target source body closing) := by
  unfold Syntax.loopEnd
  refine ite (fun _ => ?_) fun _ => given ((finish _).ignore.bind fun _ => pure rfl)
  refine (finish _).ignore.bind fun _ => (Alike.body hg _ _).bind fun otherwise => ?_
  exact given ((finish _).ignore.bind fun _ => pure rfl)

theorem loopRest (hg : g.Alike s c g') (tag : Token) (mode : LoopMode) (endTag : String)
    (target : Node) : Alike s c (fun _ => 0) (Syntax.loopRest g tag mode endTag target)
      (Syntax.loopRest g' tag mode endTag target) := by
  unfold Syntax.loopRest
  refine (skipSymbol _).bind fun _ => guard (failHere _) fun _ => hg.expression.bind fun source => ?_
  exact (blockEnd _).ignore.bind fun _ => (body hg _ _).bind fun r => loopEnd hg tag mode endTag _ _ _ _

theorem loop (hg : g.Alike s c g') : Alike s c (fun _ => 0) (Parse.loop g) (Parse.loop g') := by
  rw [Syntax.loop_eq, Syntax.loop_eq]
  refine (expect _ _).bind fun tag => (symbol _).bind fun first => (moreNames _ first).bind fun names => ?_
  dsimp only
  generalize loopMode tag.value = mode
  split
  · exact given (loopRest hg tag _ _ _)
  · exact given (loopRest hg tag _ _ _)

/-! ### Inheritance and imports -/

theorem block (hg : g.Alike s c g') : Alike s c (fun _ => 0) (Parse.block g) (Parse.block g') := by
  unfold Parse.block
  refine (expect _ _).bind fun tag => (expect _ _).bind fun name => (blockEnd _).ignore.bind fun _ => ?_
  refine (body hg _ _).bind fun r => (expect _ _).ignore.bind fun _ => ?_
  exact (skipSymbol _).ignore.bind fun _ => (blockEnd _).ignore.bind fun _ => pure rfl

theorem extend (hg : g.Alike s c g') : Alike s c (fun _ => 0) (Parse.extend g) (Parse.extend g') := by
  unfold Parse.extend
  exact (expect _ _).bind fun tag => hg.expression.bind fun template =>
    (blockEnd _).ignore.bind fun _ => pure rfl

theorem embed (hg : g.Alike s c g') : Alike s c (fun _ => 0) (Parse.embed g) (Parse.embed g') := by
  unfold Parse.embed
  refine (expect _ _).bind fun tag => hg.expression.bind fun template => ?_
  refine (skipSymbol _).bind fun ignoreMissing => ?_
  have hrest : GoesOn s c (fun _ => 0) (do
        discard <| Parse.blockEnd "include"
        return Node.embed tag.position template ignoreMissing) :=
    (blockEnd _).ignore.bind fun _ => pure rfl
  refine ite (fun _ => ?_) fun _ => hrest
  exact (skipSymbol _).bind fun _ => guard (failHere _) fun _ => hrest

theorem context? : GoesOn s c (fun _ => 0) Parse.context? := by
  unfold Parse.context?
  have hrest : ∀ choice : Option Bool, GoesOn s c (fun _ => 0) (do
        if choice.isSome then
          discard Parse.next
          if !(← Parse.skipSymbol "context") then Parse.failHere "expected \"context\" after with/without"
        return choice) := fun choice => by
    refine ite (fun _ => next.ignore.bind fun _ => ?_) fun _ => pure rfl
    exact (skipSymbol _).bind fun _ => guard (failHere _) fun _ => pure rfl
  refine (peekIs _ _ _).bind fun _ => (peekIs _ _ _).bind fun _ => ?_
  refine ite (fun _ => given (hrest (some true))) fun _ => ?_
  exact ite (fun _ => given (hrest (some false))) fun _ => given (hrest none)

theorem importAll (hg : g.Alike s c g') :
    Alike s c (fun _ => 0) (Parse.importAll g) (Parse.importAll g') := by
  unfold Parse.importAll
  refine (expect _ _).bind fun tag => hg.expression.bind fun template => (skipSymbol _).bind fun _ => ?_
  refine guard (failHere _) fun _ => (expect _ _).bind fun target => context?.bind fun withContext => ?_
  exact (blockEnd _).ignore.bind fun _ => pure rfl

theorem importName : GoesOn s c (fun _ => 1) Parse.importName := by
  unfold Parse.importName
  refine (expect _ _).taking fun name => guard (failAt Cause.noConfusion _) fun _ => ?_
  refine (skipSymbol _).bind fun _ => ite (fun _ => ?_) fun _ => given (pure rfl)
  exact (expect _ _).bind fun _ => given (pure rfl)

theorem importStep (read : List ImportName × Option Bool) :
    GoesOn s c (Sum.elim (fun _ => 1) fun _ => 0) (Syntax.importStep read) := by
  unfold Syntax.importStep
  refine (peekKind 0).bind fun _ => ite (fun _ => ?_) fun _ => ?_
  · exact guard (failHere _) fun _ => (blockEnd _).ignore.bind fun _ => pure rfl
  · have hname : GoesOn s c (Sum.elim (fun _ => 1) fun _ => 0) (do
        let name ← Parse.importName
        let choice ← Parse.context?
        return Sum.inl (read.1 ++ [name], choice.orElse fun _ => read.2) :
        Parse (List ImportName × Option Bool ⊕ List ImportName × Option Bool)) :=
      importName.bindTaking fun name => context?.bind fun _ => pure rfl
    exact ite (fun _ => (expect _ _).ignore.bind fun _ => hname) fun _ => hname

theorem importNames (hg : g.Alike s c g') :
    Alike s c (fun _ => 0) (Parse.importNames g) (Parse.importNames g') := by
  rw [Syntax.importNames_eq, Syntax.importNames_eq]
  refine (expect _ _).bind fun tag => hg.expression.bind fun template => (skipSymbol _).bind fun _ => ?_
  exact guard (failHere _) fun _ => (iterate importStep _).bind fun r => pure rfl

/-! ### Assignments, macros and calls -/

theorem assign (hg : g.Alike s c g') : Alike s c (fun _ => 0) (Parse.assign g) (Parse.assign g') := by
  unfold Parse.assign
  refine (expect _ _).bind fun tag => (symbol _).bind fun first => (moreNames _ first).bind fun targets => ?_
  refine (skipValue _ _).bind fun _ => ite (fun _ => ?_) fun _ => ?_
  · exact hg.expression.bind fun value => (blockEnd _).ignore.bind fun _ => pure rfl
  · refine (peekKind 0).bind fun _ => ite (fun _ => ?_) fun _ => failHere _
    refine (blockEnd _).ignore.bind fun _ => (body hg _ _).bind fun r => ?_
    exact (finish _).ignore.bind fun _ => pure rfl

theorem parameters (hg : g.Alike s c g') :
    Alike s c (fun _ => 0) (Parse.parameters g) (Parse.parameters g') := by
  unfold Parse.parameters
  refine (signature hg.after).bind fun parameters => ?_
  dsimp only
  split
  · exact failAt Cause.noConfusion _
  · exact pure rfl

theorem definition (hg : g.Alike s c g') :
    Alike s c (fun _ => 0) (Parse.definition g) (Parse.definition g') := by
  unfold Parse.definition
  refine (expect _ _).bind fun tag => (expect _ _).bind fun name => (parameters hg).bind fun parameters => ?_
  refine (blockEnd _).ignore.bind fun _ => (body hg _ _).bind fun r => ?_
  exact (finish _).ignore.bind fun _ => pure rfl

theorem callRest (hg : g.Alike s c g') (tag : Token) (parameters : Node) :
    Alike s c (fun _ => 0) (Syntax.callRest g tag parameters) (Syntax.callRest g' tag parameters) := by
  unfold Syntax.callRest
  refine (primary hg.after false).bind fun n => ?_
  split
  · refine (blockEnd _).ignore.bind fun _ => (body hg _ _).bind fun r => ?_
    exact (finish _).ignore.bind fun _ => pure rfl
  · exact failAt Cause.noConfusion _

theorem callBlock (hg : g.Alike s c g') :
    Alike s c (fun _ => 0) (Parse.callBlock g) (Parse.callBlock g') := by
  rw [Syntax.callBlock_eq, Syntax.callBlock_eq]
  refine (expect _ _).bind fun tag => (peekKind 0).bind fun _ => ite (fun _ => ?_) fun _ => ?_
  · exact (parameters hg).bind (callRest hg tag)
  · exact given (callRest hg tag _)

theorem filterRest (hg : g.Alike s c g') (tag : Token) (name : String) (more : List Node) :
    Alike s c (fun _ => 0) (Syntax.filterRest g tag name more)
      (Syntax.filterRest g' tag name more) := by
  unfold Syntax.filterRest
  refine (blockEnd _).ignore.bind fun _ => (body hg _ _).bind fun r => ?_
  exact (finish _).ignore.bind fun _ => pure rfl

theorem filterBlock (hg : g.Alike s c g') :
    Alike s c (fun _ => 0) (Parse.filterBlock g) (Parse.filterBlock g') := by
  rw [Syntax.filterBlock_eq, Syntax.filterBlock_eq]
  refine (expect _ _).bind fun tag => filterName.bind fun name => (peekKind 0).bind fun _ => ?_
  refine ite (fun _ => ?_) fun _ => given (filterRest hg tag name _)
  exact (signature hg.after).bind fun more => given (filterRest hg tag name _)

/-! ### Statements and nodes -/

theorem hostStatement (hg : g.Alike s c g') {hosts : List TagReader}
    (hhosts : ∀ host ∈ hosts, host.GoesOn) (tag : Token) : Alike s c (fun _ => 0) (Parse.hostStatement g hosts tag)
      (Parse.hostStatement g' hosts tag) := by
  unfold Parse.hostStatement
  split
  · rename_i host hfind
    exact next.ignore.bind fun _ => hhosts host (List.mem_of_find?_eq_some hfind) s c g g' tag hg
  · refine ite (fun _ => get.bind fun p => ?_) fun _ => failAt Cause.noConfusion _
    split
    · exact failAt Cause.noConfusion _
    · exact failAt Cause.noConfusion _

/-- A statement; the start of its tag was taken. -/
theorem statement (hg : g.Alike s c g') {hosts : List TagReader} (hhosts : ∀ host ∈ hosts, host.GoesOn) :
    Alike s c (fun _ => 0) (Parse.statement g hosts) (Parse.statement g' hosts) := by
  intro p hp ho
  refine (peek 0 p hp ho).bind fun t q hpeek => ?_
  obtain ⟨htakes, -⟩ := peek_ok ho hpeek
  have hq : s.Ahead c q := hp.trans ⟨[], htakes, le_rfl⟩
  have hoq := htakes.config ho ▸ ho
  have hbranch := (branch hg.after).mono fun _ => Nat.zero_le _
  cases t with
  | none => exact endOfFile _ q hq hoq
  | some tag =>
      dsimp only
      split
      · exact failAt Cause.noConfusion _ q hq hoq
      -- Only a raw tag needs that its name was looked at: it looks for its end by that name.
      split
      · exact raw hq hoq (peek_upcoming ho hpeek) (.inl ‹_›)
      · exact raw hq hoq (peek_upcoming ho hpeek) (.inr ‹_›)
      · exact hbranch q hq hoq
      · exact hbranch q hq hoq
      · exact loop hg q hq hoq
      · exact loop hg q hq hoq
      · exact loop hg q hq hoq
      · exact block hg q hq hoq
      · exact extend hg q hq hoq
      · exact embed hg q hq hoq
      · exact assign hg q hq hoq
      · exact definition hg q hq hoq
      · exact callBlock hg q hq hoq
      · exact importAll hg q hq hoq
      · exact importNames hg q hq hoq
      · exact filterBlock hg q hq hoq
      · exact hostStatement hg hhosts tag q hq hoq

theorem nextTrims : GoesOn s c (fun _ => 0) Parse.nextTrims := by
  unfold Parse.nextTrims
  refine get.bind fun p => (peek 0).bind fun t => ?_
  split
  · exact pure rfl
  · split <;> exact pure rfl

/-- The text that is known to come next is taken. -/
theorem text (token : Token) : Ready s c (fun _ => 1) (Parse.text token) (Parse.text token) := by
  refine .take (get.bind fun p => bind (modify (fun _ => rfl) fun _ => rfl) fun _ => ?_)
  exact nextTrims.bind fun _ => ite (fun _ => pure rfl) fun _ => pure rfl

theorem output (hg : g.Alike s (c + 1) g') (token : Token) :
    Ready s c (fun _ => 1) (Parse.output g token) (Parse.output g' token) := by
  refine .take (hg.expression.bind fun value => bind (modify (fun _ => rfl) fun _ => rfl) fun _ => ?_)
  refine (expect _ _).bind fun last => ite (fun _ => ?_) fun _ => pure rfl
  exact bind (modify (fun _ => rfl) fun _ => rfl) fun _ => pure rfl

theorem comment (token : Token) : Ready s c (fun _ => 1) (Parse.comment token) (Parse.comment token) :=
  .take (modify (fun _ => rfl) fun _ => rfl)

theorem nodeStep (hg : g.Alike s (c + 1) g') {hosts : List TagReader}
    (hhosts : ∀ host ∈ hosts, host.GoesOn) (names : List String) (ns : List Node) :
    Alike s c (Sum.elim (fun _ => 1) fun _ => 0) (Parse.nodeStep g hosts names ns)
      (Parse.nodeStep g' hosts names ns) := by
  unfold Parse.nodeStep
  refine peekThen (pure rfl) fun token => ?_
  dsimp only
  split
  · refine .modifyThen (fun _ => rfl) (fun _ => rfl) (.peekThen fun t => ?_)
    refine .ite (fun _ => Alike.ready (pure rfl)) fun _ => .take ?_
    exact (statement hg hhosts).bind fun _ => pure rfl
  · exact (text token).taking fun _ => pure rfl
  · exact (output hg token).taking fun _ => pure rfl
  · exact (comment token).taking fun _ => pure rfl
  · exact Alike.ready (failAt Cause.noConfusion _)

/-- Nodes. -/
theorem nodes (hg : g.Alike s (c + 1) g') {hosts : List TagReader}
    (hhosts : ∀ host ∈ hosts, host.GoesOn) (names : List String) :
    Alike s c (fun _ => 0) (Parse.nodes g hosts names) (Parse.nodes g' hosts names) := by
  rw [nodes_eq, nodes_eq]
  exact iterate (nodeStep hg hhosts names) []

end Alike

end Parse

/-- **A grammar reads alike before a token if the one that it calls does behind it.** -/
theorem Grammar.Alike.step {s : Parser} {c : Nat} {g g' : Grammar} (hg : g.Alike s (c + 1) g')
    {hosts : List TagReader} (hhosts : ∀ host ∈ hosts, host.GoesOn) :
    (g.step hosts).Alike s c (g'.step hosts) where
  expression := .expression hg
  negation := .negation hg
  unary := .unary hg
  primary := .primary hg
  branch := .branch hg
  nodes := .nodes hg hhosts

end Stencil
