/-
**Templates that are read.**

Main results:

* `Stencil.Parse.Gives.statement` — a statement is read as a node of which nothing is known but that
  it was written: no bind, no overridden block and no call of an extension;
* `Stencil.Grammar.tied_sound` — a grammar reads expressions and statements however deep they nest;
* `Stencil.Node.ofSource_parsed` — **the tree of a source is one that was written**, and what cannot
  be read ends in an ordinary error.
-/

import Stencil.Proofs.Syntax.Expressions

set_option autoImplicit false

namespace Stencil

open Node (Evaluable Expression IsWritable Parsed Runnable isListOf)

namespace Node.Parsed

variable {p : Position}

theorem of_children {n : Node} (hplain : n.Plain) (hformed : n.isFormed = true)
    (h : ∀ c ∈ n.children, c.Parsed) : n.Parsed :=
  parsed_iff.2 ⟨⟨hplain, hformed⟩, h⟩

theorem sequence {ns : List Node} (h : ∀ n ∈ ns, n.Runnable) : (Node.sequence p ns).Parsed :=
  of_children trivial
    (by simpa +contextual [isFormed, isWhole, parts, eachAs, Node.sequence, plays]
      using fun n hn => .inl (.inl (h n hn).2))
    (by simpa [children, fields, Field.nodes, Node.sequence] using fun n hn => (h n hn).1)

end Node.Parsed

/-- A statement by what is directly below it. -/
theorem Node.Runnable.of_children {n : Node} (hstatement : n.isStatement = true)
    (hplain : n.Plain) (hformed : n.isFormed = true) (h : ∀ c ∈ n.children, c.Parsed) :
    n.Runnable :=
  ⟨.of_children hplain hformed h, hstatement⟩

/-- Something that is written to the output. -/
theorem Node.Runnable.output {p : Position} {n : Node} (hmember : n.Member)
    (hcontent : n.plays .content = true) (hn : n.Parsed) : (Node.output p n).Runnable :=
  .of_children rfl (List.forall_mem_singleton.2 hmember)
    (by simpa [isFormed, isWhole, parts, eachAs, Node.output] using hcontent)
    (by simpa [children, fields, Field.nodes, Node.output] using hn)

theorem Node.Runnable.text {p : Position} {content : String} :
    (Node.output p (.text p content)).Runnable :=
  .output (.inl ⟨_, _, rfl⟩) rfl
    (.of_children trivial rfl fun _ h => by simp [children, fields] at h)

/-- A statement with an expression in it. -/
theorem Node.Runnable.of_expression {n c : Node} (hc : c.Evaluable) (hparts : n.parts = [(.value, c)])
    (hstatement : n.isStatement = true) (hwhole : n.isWhole = true) (hplain : n.Plain) :
    n.Runnable := by
  refine .of_children hstatement hplain (isFormed_iff.2 ⟨hwhole, fun r m hm => ?_⟩) fun m hm => ?_
  · rw [hparts] at hm
    obtain ⟨rfl, rfl⟩ : r = .value ∧ m = c := by simpa using hm
    exact hc.2
  · rw [← parts_children, hparts] at hm
    obtain rfl : m = c := by simpa using hm
    exact hc.1.2

namespace Parse.Gives

variable {g : Grammar}

/-! ### Ends of tags and bodies -/

theorem blockEnd (name : String) : Gives (fun _ => True) (Parse.blockEnd name) := by
  unfold Parse.blockEnd
  refine next.bind fun t _ => ?_
  cases t with
  | none => exact endOfFile _
  | some token =>
      dsimp only
      split
      · exact bind (modify fun _ hp => hp) fun _ _ => pure trivial
      · exact failAt rfl _

theorem finish (name : String) : Gives (fun _ => True) (Parse.finish name) :=
  (expect _ _).ignore.bind fun _ _ => blockEnd name

/-- An error is kept as an answer. -/
theorem caught {α : Type} {Q : α → Prop} {x : Parse α} (h : Gives Q x) :
    Gives (Outcome Q) (tryCatch (Except.ok <$> x) fun e => return .error e) := by
  intro p hp
  obtain ⟨hsane, hout⟩ := h p hp
  have heq : (tryCatch (Except.ok <$> x) fun e => return .error e : Parse (Except TemplateError α)) p
      = (.ok (x p).1, (x p).2) := by
    simp only [tryCatch, tryCatchThe, MonadExceptOf.tryCatch, ExceptT.tryCatch, ExceptT.mk,
      Functor.map, ExceptT.map, Bind.bind, StateT.bind, Pure.pure]
    rcases x p with ⟨e | a, q⟩ <;> rfl
  rw [heq]
  exact ⟨hsane, hout⟩

/-- The body of a statement is a list of nodes that were read. -/
theorem body (hg : g.Sound) (opener : Token) (names : List String) :
    Gives (fun r => r.1.Runnable ∧ ∃ p ns, r.1 = .sequence p ns) (Parse.body g opener names) := by
  unfold Parse.body
  dsimp only
  refine bind (modify fun _ hp => hp) fun _ _ => (caught (hg.nodes names)).bind fun answer hanswer =>
    bind (modify fun _ hp => hp) fun _ _ => ?_
  refine bind (Q := fun ns : List Node => ∀ n ∈ ns, n.Runnable) ?_ fun ns hns => ?_
  · cases answer with
    | ok ns => exact pure hanswer
    | error e => exact fun _ hp => ⟨hp, hanswer⟩
  · refine next.bind fun t _ => ?_
    cases t with
    | none => exact failAt rfl _
    | some token =>
        dsimp only
        split
        · exact (peek 0).bind fun _ _ => pure ⟨⟨.sequence hns, rfl⟩, _, _, rfl⟩
        · exact failAt rfl _

/-! ### Conditions and loops -/

/-- A statement that may be missing. -/
def OptionalBody (n : Option Node) : Prop := ∀ m, n = some m → m.Runnable

theorem branch (hg : g.Sound) : Gives Runnable (Parse.branch g) := by
  unfold Parse.branch
  refine (expect _ _).bind fun tag _ => hg.expression.bind fun condition hcondition =>
    (blockEnd _).ignore.bind fun _ _ => (body hg _ _).bind fun ⟨body', closing⟩ hbody => ?_
  have hbranch : ∀ otherwise : Option Node, OptionalBody otherwise → Gives Runnable (do
      return .branch tag.position (tag.value == "ifAsync") condition body' otherwise) := by
    intro otherwise hotherwise
    refine pure (.of_children rfl hcondition.1.1 ?_ ?_)
    · simpa [Node.isFormed, Node.isWhole, Node.parts, Node.eachAs, Node.plays, hcondition.2,
        hbody.1.2] using fun n hn => (hotherwise n hn).2
    · simpa [Node.children, Node.fields, Node.Field.nodes, hcondition.1.2, hbody.1.1]
        using fun n hn => (hotherwise n hn).1
  have hnone : OptionalBody none := fun _ h => by cases h
  dsimp only
  split
  · refine bind (hg.branch.map (R := OptionalBody) fun n hn m hm => ?_) hbranch
    cases hm
    exact hn
  · split
    · refine (finish _).ignore.bind fun _ _ => (body hg _ _).bind fun r hr =>
        (finish _).ignore.bind fun _ _ => bind (pure (Q := OptionalBody) fun m hm => ?_) hbranch
      cases hm
      exact hr.1
    · exact (finish _).ignore.bind fun _ _ => bind (pure (Q := OptionalBody) hnone) hbranch

/-- Names that can be written, at least one of them. -/
def Names (ns : List Node) : Prop :=
  ns ≠ [] ∧ ∀ n ∈ ns, ∃ p name, n = Node.symbol p name ∧ IsWritable name

/-- A list of names, each after a comma. -/
theorem moreNames (what : String) {first : Node}
    (hfirst : ∃ p name, first = Node.symbol p name ∧ IsWritable name) :
    Gives Names (Parse.moreNames what first) := by
  refine iterate (Q := Names) ⟨by simp, List.forall_mem_singleton.2 hfirst⟩
    fun names hnames => (skip _).bind fun _ _ => ?_
  split
  · exact (symbol _).bind fun n hn => pure ⟨by simp,
      List.forall_mem_append.2 ⟨hnames.2, List.forall_mem_singleton.2 hn⟩⟩
  · exact pure hnames

theorem Names.evaluable {ns : List Node} (h : Names ns) :
    ∀ n ∈ ns, n.Evaluable ∧ n.isSymbol = true := by
  intro n hn
  obtain ⟨p, name, rfl, hname⟩ := h.2 n hn
  exact ⟨.symbol hname, rfl⟩

/-- One name stands for itself as the target of a loop, several ones form an array. -/
theorem target {p : Position} {names : List Node} (h : Names names) :
    Gives (fun n => n.Expression ∧ n.isTarget = true)
      (match names with
        | [one] => Pure.pure one
        | names => Pure.pure (Node.group .array p names)) := by
  split
  · rename_i one
    obtain ⟨hone, hsymbol⟩ := h.evaluable one List.mem_cons_self
    refine pure ⟨hone.1, ?_⟩
    cases one with
    | symbol => rfl
    | _ => cases hsymbol
  · rename_i hmany
    have harray : (Node.group .array p names).Evaluable :=
      .group (.inl ⟨rfl, rfl⟩) fun n hn => ⟨(h.evaluable n hn).1.1, (h.evaluable n hn).1.2⟩
    have hlength : 2 ≤ names.length := by
      match names with
      | [] => exact absurd rfl h.1
      | [one] => exact absurd rfl (hmany one)
      | _ :: _ :: _ => simp
    refine pure ⟨harray.1, ?_⟩
    simpa [Node.isTarget, hlength] using fun n hn => (h.evaluable n hn).2

theorem loop (hg : g.Sound) : Gives Runnable (Parse.loop g) := by
  unfold Parse.loop
  refine (expect _ _).bind fun tag _ => ?_
  generalize Parse.loopMode tag.value = kind
  obtain ⟨mode, endTag⟩ := kind
  refine (symbol _).bind fun first hfirst => (moreNames _ hfirst).bind fun names hnames => ?_
  -- what follows the names is read alike for one name and for several
  have hrest : ∀ target : Node, target.Expression ∧ target.isTarget = true → Gives Runnable (do
      if !(← Parse.skipSymbol "in") then Parse.failHere "expected \"in\" keyword for loop"
      let source ← g.expression
      discard <| Parse.blockEnd tag.value
      let r ← Parse.body g tag ["else", endTag]
      let otherwise ←
        if r.2 = "else" then do
          discard <| Parse.finish "else"
          let r ← Parse.body g tag [endTag]
          Pure.pure (some r.1)
        else Pure.pure none
      discard <| Parse.finish endTag
      return .loop tag.position mode source target r.1 otherwise) := by
    intro target htarget
    refine (skipSymbol _).bind fun _ _ => guard (failHere _) fun _ => ?_
    refine hg.expression.bind fun source hsource => (blockEnd _).ignore.bind fun _ _ =>
      (body hg _ _).bind fun r hbody => ?_
    have hloop : ∀ otherwise : Option Node, OptionalBody otherwise → Gives Runnable (do
        discard <| Parse.finish endTag
        return .loop tag.position mode source target r.1 otherwise) := by
      intro otherwise hotherwise
      refine (finish _).ignore.bind fun _ _ =>
        pure (.of_children rfl ⟨hsource.1.1, htarget.1.1⟩ ?_ ?_)
      · simpa [Node.isFormed, Node.isWhole, Node.parts, Node.eachAs, Node.plays, hsource.2,
          htarget.2, hbody.1.2] using fun n hn => (hotherwise n hn).2
      · simpa [Node.children, Node.fields, Node.Field.nodes, hsource.1.2, htarget.1.2, hbody.1.1]
          using fun n hn => (hotherwise n hn).1
    dsimp only
    split
    · refine (finish _).ignore.bind fun _ _ => (body hg _ _).bind fun r hr =>
        bind (pure (Q := OptionalBody) fun m hm => ?_) hloop
      cases hm
      exact hr.1
    · exact bind (pure (Q := OptionalBody) fun _ h => by cases h) hloop
  have htarget := target (p := tag.position) hnames
  split
  · exact bind htarget hrest
  · rename_i hmany
    exact bind (by simpa using htarget) hrest

/-! ### Inheritance and imports -/

theorem block (hg : g.Sound) : Gives Runnable (Parse.block g) := by
  unfold Parse.block
  refine (expect _ _).bind fun tag _ => (expectName _).bind fun name _ =>
    (blockEnd _).ignore.bind fun _ _ => (body hg _ _).bind fun ⟨body', _⟩ hbody => ?_
  refine (expect _ _).ignore.bind fun _ _ => (skipSymbol _).ignore.bind fun _ _ =>
    (blockEnd _).ignore.bind fun _ _ => pure (.of_children rfl hbody.2 ?_ ?_)
  · simp [Node.isFormed, Node.isWhole, Node.parts, Node.plays, hbody.1.2]
  · simpa [Node.children, Node.fields, Node.Field.nodes] using hbody.1.1

theorem extend (hg : g.Sound) : Gives Runnable (Parse.extend g) := by
  unfold Parse.extend
  exact (expect _ _).bind fun tag _ => hg.expression.bind fun n hn =>
    (blockEnd _).ignore.bind fun _ _ => pure (.of_expression hn rfl rfl rfl hn.1.1)

theorem embed (hg : g.Sound) : Gives Runnable (Parse.embed g) := by
  unfold Parse.embed
  refine (expect _ _).bind fun tag _ => hg.expression.bind fun n hn =>
    (skipSymbol _).bind fun ignoreMissing _ => ?_
  have hrest : Gives Runnable (do
      discard <| Parse.blockEnd "include"
      return .embed tag.position n ignoreMissing) :=
    (blockEnd _).ignore.bind fun _ _ => pure (.of_expression hn rfl rfl rfl hn.1.1)
  split
  · exact (skipSymbol _).bind fun _ _ => guard (failHere _) fun _ => hrest
  · exact hrest

theorem context : Gives (fun _ => True) context? := by
  have hrest : ∀ choice : Option Bool, Gives (fun _ => True) (do
      if choice.isSome then
        discard Parse.next
        if !(← Parse.skipSymbol "context") then
          Parse.failHere "expected \"context\" after with/without"
      return choice) := by
    intro choice
    split
    · exact next.ignore.bind fun _ _ => (skipSymbol _).bind fun _ _ =>
        guard (failHere _) fun _ => pure trivial
    · exact pure trivial
  unfold context?
  refine (peekIs _ _ _).bind fun _ _ => (peekIs _ _ _).bind fun _ _ => ?_
  dsimp only
  split
  · exact bind (pure (Q := fun _ => True) trivial) fun choice _ => hrest choice
  · split
    · exact bind (pure (Q := fun _ => True) trivial) fun choice _ => hrest choice
    · exact bind (pure (Q := fun _ => True) trivial) fun choice _ => hrest choice

theorem importAll (hg : g.Sound) : Gives Runnable (Parse.importAll g) := by
  unfold Parse.importAll
  exact (expect _ _).bind fun tag _ => hg.expression.bind fun n hn =>
    (skipSymbol _).bind fun _ _ => guard (failHere _) fun _ => (expectName _).bind fun target htarget =>
      context.bind fun _ _ => (blockEnd _).ignore.bind fun _ _ =>
        pure (.of_expression hn rfl rfl rfl ⟨hn.1.1, htarget⟩)

/-- A name that is imported, under a name that can be written. -/
def WritableImport (name : ImportName) : Prop :=
  IsWritable name.name ∧ ∀ new, name.newName = some new → IsWritable new

theorem importName : Gives WritableImport Parse.importName := by
  unfold Parse.importName
  refine (expectName _).bind fun name hname => guard (failAt rfl _) fun _ =>
    (skipSymbol _).bind fun _ _ => ?_
  have hrest : ∀ newName : Option String, (∀ new, newName = some new → IsWritable new) →
      Gives WritableImport (do return ⟨name.value, newName⟩) :=
    fun newName hnew => pure ⟨hname, hnew⟩
  split
  · refine (expectName _).bind fun new hnew =>
      bind (pure (Q := fun n : Option String => ∀ new, n = some new → IsWritable new) ?_) hrest
    intro m hm
    cases hm
    exact hnew
  · exact bind (pure (Q := fun n : Option String => ∀ new, n = some new → IsWritable new)
      fun _ h => by cases h) hrest

theorem importNames (hg : g.Sound) : Gives Runnable (Parse.importNames g) := by
  unfold Parse.importNames
  refine (expect _ _).bind fun tag _ => hg.expression.bind fun n hn =>
    (skipSymbol _).bind fun _ _ => guard (failHere _) fun _ => ?_
  let names (r : List ImportName × Option Bool) : Prop := ∀ name ∈ r.1, WritableImport name
  refine bind (iterate (Q := names) (R := names) (fun _ h => by simp at h) ?_)
    fun ⟨all, _⟩ hall => pure (.of_expression hn rfl rfl rfl ⟨hn.1.1, hall⟩)
  · rintro ⟨all, withContext⟩ hall
    have hname : Gives (Sum.elim names names) (do
        let name ← Parse.importName
        let choice ← context?
        return .inl (all ++ [name], choice.orElse fun _ => withContext)) :=
      importName.bind fun name hname => context.bind fun _ _ =>
        pure (List.forall_mem_append.2 ⟨hall, List.forall_mem_singleton.2 hname⟩)
    refine (peekKind 0).bind fun _ _ => ?_
    split
    · exact guard (failHere _) fun _ => (blockEnd _).ignore.bind fun _ _ => pure hall
    · dsimp only
      split
      · exact (expect _ _).ignore.bind fun _ _ => hname
      · exact hname

/-! ### Assignments, macros and calls -/

theorem capture_evaluable {p : Position} {n : Node} (hn : n.Runnable) :
    (Node.capture p n).Parsed :=
  .of_children trivial (by simp [Node.isFormed, Node.isWhole, Node.parts, Node.plays, hn.2])
    (by simpa [Node.children, Node.fields, Node.Field.nodes] using hn.1)

theorem assign (hg : g.Sound) : Gives Runnable (Parse.assign g) := by
  unfold Parse.assign
  refine (expect _ _).bind fun tag _ => (symbol _).bind fun first hfirst =>
    (moreNames _ hfirst).bind fun targets htargets => (skipValue _ _).bind fun _ _ => ?_
  have hnames := htargets.evaluable
  have hterms : ∀ n ∈ targets, n.Term := fun n hn => (hnames n hn).1.1.1
  have hparsed : ∀ n ∈ targets, n.Parsed := fun n hn => (hnames n hn).1.1.2
  have hsymbols : ∀ n ∈ targets, n.isSymbol = true := fun n hn => (hnames n hn).2
  split
  · refine hg.expression.bind fun value hvalue => (blockEnd _).ignore.bind fun _ _ =>
      pure (.of_children rfl ⟨hterms, fun n hn => ?_⟩ ?_ ?_)
    · cases hn
      exact hvalue.1.1
    · simpa [Node.isFormed, Node.isWhole, Node.parts, Node.eachAs, Node.plays, hvalue.2]
        using hsymbols
    · intro c hc
      have hc : c ∈ targets ∨ c = value := by
        simpa [Node.children, Node.fields, Node.Field.nodes] using hc
      rcases hc with hc | rfl
      · exact hparsed c hc
      · exact hvalue.1.2
  · refine (peekKind 0).bind fun _ _ => ?_
    split
    · refine (blockEnd _).ignore.bind fun _ _ => (body hg _ _).bind fun r hbody =>
        (finish _).ignore.bind fun _ _ => pure (.of_children rfl ⟨hterms, fun n hn => ?_⟩ ?_ ?_)
      · cases hn
      · simpa [Node.isFormed, Node.isWhole, Node.parts, Node.eachAs, Node.plays, Node.isCapture]
          using hsymbols
      · intro c hc
        have hc : c ∈ targets ∨ c = Node.capture tag.position r.1 := by
          simpa [Node.children, Node.fields, Node.Field.nodes] using hc
        rcases hc with hc | rfl
        · exact hparsed c hc
        · exact capture_evaluable hbody.1
    · exact failHere _

/-- Parameters are names, with keywords at the end. -/
theorem parameters (hg : g.Sound) :
    Gives (fun n => n.Expression ∧ n.plays .parameters = true) (Parse.parameters g) := by
  unfold Parse.parameters
  refine (signature hg).bind fun n hn => ?_
  dsimp only
  split
  · exact failAt rfl _
  · rename_i hnone
    refine pure ⟨hn.1, ?_⟩
    have hshape := hn.2
    cases n with
    | group kind p ns =>
        cases kind with
        | sequence =>
            refine Node.isListOf_mono (fun m hm hvalue => ?_) hshape
            have hparameter := List.find?_eq_none.1 hnone m hm
            cases m with
            | symbol => rfl
            | group kind => cases kind <;> simp_all [Node.hasValue]
            | _ => simp at hparameter
        | _ => cases hshape
    | _ => cases hshape

/-- A macro or the body of a call has parameters and a body. -/
theorem isFormed_definition {p : Position} {role : MacroRole} {name : String}
    {parameters body : Node} (hparameters : parameters.plays .parameters = true)
    (hbody : body.Runnable) : (Node.definition p role name parameters body).isFormed = true :=
  Node.isFormed_iff.2 ⟨rfl, fun r c hc => by
    rcases List.mem_cons.1 hc with heq | hc
    · cases heq
      exact hparameters
    · cases List.mem_singleton.1 hc
      exact hbody.2⟩

theorem definition (hg : g.Sound) : Gives Runnable (Parse.definition g) := by
  unfold Parse.definition
  refine (expect _ _).bind fun tag _ => (expectName _).bind fun name hname =>
    (parameters hg).bind fun parameters hparameters => (blockEnd _).ignore.bind fun _ _ =>
      (body hg _ _).bind fun ⟨body', _⟩ hbody => (finish _).ignore.bind fun _ _ =>
        pure (.of_children rfl ⟨hname, hparameters.1.1⟩
          (isFormed_definition hparameters.2 hbody.1) ?_)
  simp [Node.children, Node.fields, Node.Field.nodes, hparameters.1.2, hbody.1.1]

/-- Arguments with the body of a call among them are still arguments. -/
theorem withCaller {p : Position} {caller : Node} {arguments : List Node}
    (hcaller : caller.Evaluable) (h : Filtered arguments) :
    Filtered (Parse.withCaller p caller arguments) := by
  have hname : (Node.symbol p "caller").Evaluable := .symbol (by decide)
  have hpair : (Node.pair p (.symbol p "caller") caller).Expression ∧
      (Node.pair p (.symbol p "caller") caller).isKeyword = true := ⟨.pair hname hcaller, rfl⟩
  unfold Parse.withCaller
  dsimp only
  split
  · rename_i q keywords hlast
    have hkeywords := h.1 _ (List.mem_of_getLast? hlast)
    have hmembers : ∀ n ∈ keywords, n.Expression ∧ n.isKeyword = true := fun n hn =>
      ⟨hkeywords.member hn,
        (Node.isFormed_iff.1 hkeywords.2.self.2).2 .keyword n (List.mem_map.2 ⟨n, hn, rfl⟩)⟩
    have hinit := (List.dropLast_append_getLast? _ hlast).symm
    refine ⟨List.forall_mem_append.2 ⟨fun n hn => h.1 n (List.dropLast_subset _ hn),
      List.forall_mem_singleton.2 (.keywords ?_)⟩, ?_⟩
    · exact List.forall_mem_append.2 ⟨hmembers, List.forall_mem_singleton.2 hpair⟩
    · have hlist := h.2
      rw [hinit] at hlist
      exact Node.isListOf_concat.2 ⟨(Node.isListOf_concat.1 hlist).1, .inr rfl⟩
  · rename_i hlast
    refine ⟨List.forall_mem_append.2 ⟨h.1, List.forall_mem_singleton.2
      (.keywords (List.forall_mem_singleton.2 hpair))⟩, Node.isListOf_concat.2 ⟨?_, .inr rfl⟩⟩
    intro n hn
    rcases List.eq_nil_or_concat arguments with rfl | ⟨init, last, rfl⟩
    · simp at hn
    · rw [List.concat_eq_append] at hn hlast
      have hlist := h.2
      rw [List.concat_eq_append] at hlist
      obtain ⟨hinit, hend⟩ := Node.isListOf_concat.1 hlist
      rcases List.mem_append.1 hn with hn | hn
      · exact hinit n hn
      · rw [List.mem_singleton.1 hn]
        refine hend.resolve_right fun hkeywords => ?_
        cases last with
        | group kind q keywords =>
            cases kind with
            | keywords => exact hlast q keywords (by simp)
            | _ => cases hkeywords
        | _ => cases hkeywords

/-- The body of a call is a part of an expression. -/
theorem caller_evaluable {p : Position} {name : String} {parameters body : Node}
    (hname : IsWritable name)
    (hparameters : parameters.Expression ∧ parameters.plays .parameters = true)
    (hbody : body.Runnable) : (Node.definition p .caller name parameters body).Evaluable :=
  ⟨⟨Node.term_iff.2 ⟨rfl, fun h => by cases h⟩,
    .of_children ⟨hname, hparameters.1.1⟩ (isFormed_definition hparameters.2 hbody) (by
      simp [Node.children, Node.fields, Node.Field.nodes, hparameters.1.2, hbody.1])⟩, rfl⟩

/-- The parts of an expression are expressions. -/
theorem expression_child {n c : Node} (h : n.Expression) (hn : n.isApart = false)
    (hc : c ∈ n.children) : c.Expression :=
  ⟨h.1.child hn hc, h.2.child hc⟩

/-- The call of a macro with a body, behind the parameters of the body. -/
theorem calledBlock (hg : g.Sound) (tag : Token) (parameters : Node)
    (hparameters : parameters.Expression ∧ parameters.plays .parameters = true) :
    Gives Runnable (do
      match ← Parse.primary g false with
      | .call p callee arguments =>
        discard <| Parse.blockEnd "call"
        let (body, _) ← Parse.body g tag ["endcall"]
        discard <| Parse.finish "endcall"
        let caller := Node.definition tag.position .caller "caller" parameters body
        let arguments' := Parse.withCaller tag.position caller arguments.members
        return .output tag.position (.call p callee (.sequence arguments.position arguments'))
      | _ => Parse.failAt .notMacroCall tag.position) := by
  refine (primary hg false).bind fun n hn => ?_
  split
  · rename_i p callee arguments
    refine (blockEnd _).ignore.bind fun _ _ => (body hg _ _).bind fun r hbody =>
      (finish _).ignore.bind fun _ _ => ?_
    have hname : IsWritable "caller" := by decide
    have hcaller := caller_evaluable (p := tag.position) hname hparameters hbody.1
    have hformed := Node.isFormed_iff.1 hn.1.2.self.2
    have hcallee : callee.Evaluable :=
      ⟨expression_child hn.1 rfl List.mem_cons_self, hformed.2 .value _ List.mem_cons_self⟩
    have harguments : Filtered arguments.members :=
      .of_arguments (expression_child hn.1 rfl (by
        simp [Node.children, Node.fields, Node.Field.nodes]))
        (hformed.2 .arguments _ (List.mem_cons_of_mem _ List.mem_cons_self))
    have hmore := withCaller (p := tag.position) hcaller harguments
    have hsequence := Expression.arguments (p := arguments.position) hmore.1 hmore.2
    have hcall := Evaluable.call (p := p) hcallee hsequence.1 hsequence.2
    exact pure (.output (.inr (.inl hcall.1.1)) rfl hcall.1.2)
  · exact failAt rfl _

theorem callBlock (hg : g.Sound) : Gives Runnable (Parse.callBlock g) := by
  unfold Parse.callBlock
  refine (expect _ _).bind fun tag _ => ?_
  refine (peekKind 0).bind fun _ _ => ?_
  split
  · exact (parameters hg).bind (calledBlock hg tag)
  · exact bind (pure ⟨(Expression.arguments (fun _ h => by simp at h) rfl).1, rfl⟩)
      (calledBlock hg tag)

theorem filterBlock (hg : g.Sound) : Gives Runnable (Parse.filterBlock g) := by
  unfold Parse.filterBlock
  refine (expect _ _).bind fun tag _ => filterName.bind fun name _ => (peekKind 0).bind fun _ _ => ?_
  have hrest : ∀ more : List Node, Filtered more → Gives Runnable (do
      discard <| Parse.blockEnd "filter"
      let r ← Parse.body g tag ["endfilter"]
      discard <| Parse.finish "endfilter"
      let arguments := Node.sequence tag.position (.capture tag.position r.1 :: more)
      return .output tag.position (.filter tag.position name arguments)) := by
    intro more hmore
    refine (blockEnd _).ignore.bind fun _ _ => (body hg _ _).bind fun r hbody =>
      (finish _).ignore.bind fun _ _ => ?_
    have hlist : isListOf Node.hasValue (.capture tag.position r.1 :: more) = true :=
      Node.isListOf_cons rfl hmore.2
    have hmembers : ∀ n ∈ Node.capture tag.position r.1 :: more, n.Parsed :=
      List.forall_mem_cons.2 ⟨capture_evaluable hbody.1, fun m hm => (hmore.1 m hm).2⟩
    have harguments : (Node.sequence tag.position (.capture tag.position r.1 :: more)).Parsed :=
      .of_children trivial (Node.isFormed_arguments hlist)
        (by simpa [Node.children, Node.fields, Node.Field.nodes, Node.sequence] using hmembers)
    refine pure (.output (.inr (.inr ?_)) rfl (.of_children trivial ?_ ?_))
    · exact ⟨_, _, _, _, _, more, rfl, fun m hm => (hmore.1 m hm).1⟩
    · refine Node.isFormed_iff.2 ⟨rfl, fun r c hc => ?_⟩
      cases List.mem_singleton.1 hc
      exact hlist
    · exact List.forall_mem_singleton.2 harguments
  split
  · exact (signature hg).bind fun arguments harguments =>
      bind (pure (Filtered.of_arguments harguments.1 harguments.2)) hrest
  · exact bind (pure .nil) hrest

/-! ### Statements -/

theorem raw : Gives Runnable Parse.raw := by
  unfold Parse.raw
  refine (expect _ _).bind fun tag _ => (blockEnd _).ignore.bind fun _ _ => get.bind fun p _ => ?_
  dsimp only
  split
  · exact failAt rfl _
  · refine get.bind fun p _ => ?_
    split
    · exact failAt rfl _
    · refine get.bind fun p _ => ?_
      exact bind (modify fun _ hp => hp) fun _ _ => pure .text

/-- No host added a tag. -/
theorem hostStatement (tag : Token) : Gives Runnable (Parse.hostStatement g [] tag) := by
  unfold Parse.hostStatement
  rw [List.find?_nil]
  dsimp only
  split
  · refine get.bind fun p _ => ?_
    split
    · exact failAt rfl _
    · exact failAt rfl _
  · exact failAt rfl _

theorem statement (hg : g.Sound) : Gives Runnable (Parse.statement g []) := by
  unfold Parse.statement
  refine (peek 0).bind fun t _ => ?_
  cases t with
  | none => exact endOfFile _
  | some tag =>
      dsimp only
      split
      · exact failAt rfl _
      · split
        · exact raw
        · exact raw
        · exact branch hg
        · exact branch hg
        · exact loop hg
        · exact loop hg
        · exact loop hg
        · exact block hg
        · exact extend hg
        · exact embed hg
        · exact assign hg
        · exact definition hg
        · exact callBlock hg
        · exact importAll hg
        · exact importNames hg
        · exact filterBlock hg
        · exact hostStatement tag

/-! ### Nodes -/

theorem nextTrims : Gives (fun _ => True) Parse.nextTrims := by
  unfold Parse.nextTrims
  refine get.bind fun p _ => (peek 0).bind fun t _ => ?_
  cases t with
  | none => exact pure trivial
  | some token =>
      dsimp only
      split <;> exact pure trivial

theorem text (token : Token) : Gives (fun ns => ∀ n ∈ ns, n.Runnable) (Parse.text token) := by
  have hshown : ∀ shown : List Char, Gives (fun ns => ∀ n ∈ ns, n.Runnable) (do
      if shown.isEmpty then return []
      else return [Node.output token.position (.text token.position (String.ofList shown))]) := by
    intro shown
    split
    · exact pure fun _ h => by simp at h
    · exact pure (List.forall_mem_singleton.2 .text)
  unfold Parse.text
  exact next.ignore.bind fun _ _ => get.bind fun p _ =>
    bind (modify fun _ hp => hp) fun _ _ => nextTrims.bind fun _ _ => hshown _

theorem output (hg : g.Sound) (token : Token) : Gives Runnable (Parse.output g token) := by
  unfold Parse.output
  refine next.ignore.bind fun _ _ => hg.expression.bind fun n hn =>
    bind (modify fun _ hp => hp) fun _ _ => (expect _ _).bind fun _ _ => ?_
  have hout : (Node.output token.position n).Runnable :=
    .output (.inr (.inl hn.1.1)) (by simp [Node.plays, hn.2]) hn.1.2
  split
  · exact bind (modify fun _ hp => hp) fun _ _ => pure hout
  · exact pure hout

theorem comment (token : Token) : Gives (fun _ => True) (Parse.comment token) :=
  next.ignore.bind fun _ _ => modify fun _ hp => hp

/-- Nodes up to some tag. -/
theorem nodes (hg : g.Sound) (names : List String) :
    Gives (fun ns => ∀ n ∈ ns, n.Runnable) (Parse.nodes g [] names) := by
  have hone : ∀ {ns : List Node} {n : Node}, (∀ m ∈ ns, m.Runnable) → n.Runnable →
      ∀ m ∈ ns ++ [n], m.Runnable := fun hns hn =>
    List.forall_mem_append.2 ⟨hns, List.forall_mem_singleton.2 hn⟩
  unfold Parse.nodes
  refine iterate (Q := fun ns : List Node => ∀ n ∈ ns, n.Runnable) (fun _ h => by simp at h)
    fun ns hns => (peek 0).bind fun t _ => ?_
  cases t with
  | none => exact pure hns
  | some token =>
      dsimp only
      split
      · refine bind (modify fun _ hp => hp) fun _ _ => (peek 1).bind fun _ _ => ?_
        split
        · exact pure hns
        · exact next.ignore.bind fun _ _ => (statement hg).bind fun n hn => pure (hone hns hn)
      · exact (text token).bind fun more hmore => pure (List.forall_mem_append.2 ⟨hns, hmore⟩)
      · exact (output hg token).bind fun n hn => pure (hone hns hn)
      · exact (comment token).bind fun _ _ => pure hns
      · exact failAt rfl _

end Parse.Gives

/-! ### Whole templates -/

open Parse

namespace Grammar

/-- A grammar reads expressions and statements if the one inside of it does. -/
theorem Sound.step {g : Grammar} (hg : g.Sound) : (g.step []).Sound where
  expression := .expression hg
  negation := .negation hg
  unary := .unary hg
  primary bare := .primary hg bare
  branch := .branch hg
  nodes names := .nodes hg names

/-- A grammar reads expressions and statements however deep they nest. -/
theorem tied_sound (depth : Nat) : (tied [] depth).Sound := by
  have hfail : ∀ {α : Type} {Q : α → Prop}, Gives Q (do
      failAt .nestingTooDeep (← get).lexer.position) :=
    Gives.get.bind fun _ _ => Gives.failAt rfl _
  induction depth with
  | zero => exact ⟨hfail, hfail, hfail, fun _ => hfail, hfail, fun _ => hfail⟩
  | succ depth ih =>
      have hstep := ih.step
      exact ⟨hstep.expression, hstep.negation, hstep.unary, hstep.primary, hstep.branch,
        hstep.nodes⟩

end Grammar

/-- The tree of a source is one that was written: a list of nodes. -/
theorem Node.ofSource_parsed (config : Config) (source : String) :
    Outcome (fun n => n.Parsed ∧ ∃ p ns, n = .group .root p ns)
      (Node.ofSource config [] source) := by
  have hnodes : Gives (fun ns => ∀ n ∈ ns, n.Runnable) (run [] fun g => nodes g [] []) :=
    fun p hp => Gives.nodes (Grammar.tied_sound _) [] p hp
  have htemplate : Gives (fun n : Node => n.Parsed ∧ ∃ p ns, n = .group .root p ns)
      (template []) := by
    refine hnodes.bind fun ns hns => Gives.pure ⟨.of_children trivial ?_ ?_, _, _, rfl⟩
    · simpa [isFormed, isWhole, parts, eachAs, plays] using fun n hn => (hns n hn).2
    · simpa [children, fields, Field.nodes] using fun n hn => (hns n hn).1
  exact (htemplate _ (Parser.ofString_sane config source)).2

end Stencil
