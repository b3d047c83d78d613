/-
**What templates show of their texts.**

The nodes of a template are read from text to text, and the trees of the statements between them have
the texts of their bodies.  A parser keeps in mind whether the next text loses the white space at its
start, in one flag that tags and comments set.  Where nodes end before a tag that their statement goes
on with, the flag is dropped already.

Main definitions:

* `Stencil.Parser.Stops` — nodes were read up to the end of a template, or up to a tag that ends them;
* `Stencil.Parse.GivesTexts` — an action that gives a tree with the texts that its portions show;
* `Stencil.Grammar.Shows` — a grammar of which nodes and statements give what their portions show.

Main results:

* `Stencil.Parse.Shows.body` — the body of a statement;
* `Stencil.Parse.raw_ok` — the text of a raw tag;
* `Stencil.Parse.statement_shows` — statements, by the names of their tags;
* `Stencil.Parse.nodes_ok` — **nodes**;
* `Stencil.Node.ofSource_texts` — **the texts of a template are what its portions show**.
-/

import Stencil.Proofs.Reading.Expressions
import Stencil.Proofs.Reading.Shown
import Stencil.Parser.Template

set_option autoImplicit false

namespace Stencil

/-! ### Texts of statements -/

namespace Node

variable {p : Position} {name : String}

@[simp] theorem texts_text {content : String} : (text p content).texts = [content] := by
  rw [texts_eq]
  rfl

@[simp] theorem texts_group {kind : GroupKind} {ns : List Node} :
    (group kind p ns).texts = ns.flatMap texts := by
  rw [texts_eq]
  simp [text?, children, fields, Field.nodes]

@[simp] theorem texts_output {n : Node} : (output p n).texts = n.texts := by
  simp [output]

@[simp] theorem texts_capture {body : Node} : (capture p body).texts = body.texts := by
  rw [texts_eq]
  simp [text?, children, fields, Field.nodes]

@[simp] theorem texts_pair {key value : Node} : (pair p key value).texts = key.texts ++ value.texts := by
  rw [texts_eq]
  simp [text?, children, fields, Field.nodes]

@[simp] theorem texts_call {callee arguments : Node} :
    (call p callee arguments).texts = callee.texts ++ arguments.texts := by
  rw [texts_eq]
  simp [text?, children, fields, Field.nodes]

@[simp] theorem texts_filter {arguments : Node} : (filter p name arguments).texts = arguments.texts := by
  rw [texts_eq]
  simp [text?, children, fields, Field.nodes]

@[simp] theorem texts_branch {suspends : Bool} {condition body : Node} {otherwise : Option Node} :
    (branch p suspends condition body otherwise).texts =
      condition.texts ++ body.texts ++ otherwise.toList.flatMap texts := by
  rw [texts_eq]
  simp [text?, children, fields, Field.nodes]

@[simp] theorem texts_loop {mode : LoopMode} {source target body : Node} {otherwise : Option Node} :
    (loop p mode source target body otherwise).texts =
      source.texts ++ target.texts ++ body.texts ++ otherwise.toList.flatMap texts := by
  rw [texts_eq]
  simp [text?, children, fields, Field.nodes]

@[simp] theorem texts_assign {targets : List Node} {value body : Option Node} :
    (assign p targets value body).texts =
      targets.flatMap texts ++ value.toList.flatMap texts ++ body.toList.flatMap texts := by
  rw [texts_eq]
  simp [text?, children, fields, Field.nodes]

@[simp] theorem texts_definition {role : MacroRole} {parameters body : Node} :
    (definition p role name parameters body).texts = parameters.texts ++ body.texts := by
  rw [texts_eq]
  simp [text?, children, fields, Field.nodes]

@[simp] theorem texts_block {body : Node} : (block p name body).texts = body.texts := by
  rw [texts_eq]
  simp [text?, children, fields, Field.nodes]

theorem AllSilent.texts {ns : List Node} (h : AllSilent ns) : ns.flatMap Node.texts = [] :=
  List.flatMap_eq_nil_iff.2 h

end Node

open Node (Silent AllSilent OptionSilent)

namespace Parse

variable {g : Grammar} {α β : Type} {p q : Parser} {t : Token}

/-! ### Single tokens -/

/-- A token of a kind was taken. -/
theorem expect_ok {kind : TokenKind} {what : String} (h : expect kind what p = (.ok t, q)) :
    t.kind = kind ∧ p.upcoming = .ok (some t) ∧ p.Takes [.token t] q ∧ q.trimNext = p.trimNext := by
  obtain ⟨o, r, hnext, h⟩ := bind_eq_ok h
  cases o with
  | none => exact absurd h (by rintro ⟨⟩)
  | some u =>
      dsimp only at h
      split at h
      · rename_i hkind
        cases h
        obtain ⟨hupcoming, htakes, htrim, -⟩ := next_ok hnext
        exact ⟨hkind, hupcoming, htakes, htrim⟩
      · cases h

/-- The end of a tag was taken. -/
theorem blockEnd_ok {name : String} (h : blockEnd name p = (.ok t, q)) :
    t.kind = .blockEnd ∧ p.Takes [.token t] q ∧ q.trimNext = t.startsDashed := by
  obtain ⟨o, r, hnext, h⟩ := bind_eq_ok h
  obtain ⟨-, htakes, -, -⟩ := next_ok hnext
  cases o with
  | none => exact absurd h (by rintro ⟨⟩)
  | some u =>
      dsimp only at h
      split at h
      · rename_i hkind
        cases h
        exact ⟨hkind, htakes, rfl⟩
      · cases h

/-- A token that was looked at is known to come next. -/
theorem peek_upcoming {o : Option Token} (ho : p.lexer.config.IsProper) (h : peek 0 p = (.ok o, q)) :
    q.upcoming = .ok o := by
  obtain ⟨-, -, -, hq, hend⟩ := peek_ok ho h
  unfold Parser.upcoming
  cases hbuffer : q.buffer with
  | cons t rest =>
      rw [hbuffer] at hq
      exact congrArg _ hq
  | nil =>
      rw [hbuffer] at hq
      obtain rfl : none = o := hq
      simp only [Lexer.nextVisible_of_end (hend rfl)]

end Parse

namespace Parser

variable {p q : Parser} {t : Token} {ps : List Portion} {xs : List String}

/-- A token that is no text shows nothing. -/
theorem Shows.of_token (htakes : p.Takes [.token t] q) (ht : t.kind ≠ .data)
    (htrim : q.trimNext = p.markers.dropsAfter p.trimNext (.token t)) : p.Shows [.token t] [] q :=
  .of_plain htakes (List.forall_mem_singleton.2 (by simpa [Portion.isPlain] using ht)) htrim

/-- Portions were taken up to the end of a template, or up to a tag with one of some names.  The parser
does not wait for the end of this tag before it leaves the white space after it alone. -/
structure Stops (names : List String) (p : Parser) (ps : List Portion) (xs : List String) (q : Parser) :
    Prop where
  shows : ∃ trimNext, p.Shows ps xs { q with trimNext := trimNext }
  stop : (q.buffer = [] ∧ q.lexer.rest = []) ∨ (q.trimNext = false ∧
    ∃ t u rest, q.buffer = t :: u :: rest ∧ t.kind = .blockStart ∧ u.value ∈ names)

variable {names : List String}

/-- The tags that are open have nothing to do with what is shown. -/
theorem Stops.reopened {opened opened' : List OpenTag}
    (h : Stops names { p with opened := opened } ps xs q) :
    p.Stops names ps xs { q with opened := opened' } := by
  obtain ⟨⟨trimNext, hshows⟩, hstop⟩ := h
  exact ⟨⟨trimNext, hshows.takes, hshows.starts, hshows.trimNext, hshows.texts⟩, hstop⟩

/-- The start of the tag that ends some nodes is taken. -/
theorem Stops.tag (ho : p.lexer.config.IsProper) (h : p.Stops names ps xs q) {r : Parser}
    (hnext : Parse.next q = (.ok (some t), r)) :
    p.Shows (ps ++ [.token t]) xs r ∧ t.kind = .blockStart := by
  obtain ⟨⟨trimNext, hshows⟩, hstop⟩ := h
  obtain ⟨hupcoming, htakes, htrim, -⟩ := Parse.next_ok hnext
  rcases hstop with ⟨hbuffer, hrest⟩ | ⟨hdropped, t', u, rest, hbuffer, hkind, -⟩
  · simp [upcoming, hbuffer, Lexer.nextVisible_of_end hrest] at hupcoming
  · obtain rfl : t' = t := by simpa [upcoming, hbuffer] using hupcoming
    have htag : Shows { q with trimNext := trimNext } [.token t'] [] r :=
      .of_token htakes (by simp [hkind]) (by simp [htrim, hdropped, Markers.dropsAfter, hkind])
    exact ⟨by simpa using hshows.trans ho htag, hkind⟩

end Parser

/-- An action that gives a tree with some texts and, behind them, those that its portions show. -/
def Parse.GivesTexts (first : List String) (x : Parse Node) : Prop :=
  x.Shows fun n xs => n.texts = first ++ xs

/-- A grammar of which nodes and statements give what their portions show. -/
structure Grammar.Shows (g : Grammar) : Prop where
  staysInside : g.StaysInside
  branch : g.branch.GivesTexts []
  nodes : ∀ names p ns q, p.lexer.config.IsProper → g.nodes names p = (.ok ns, q) →
    ∃ ps, p.Stops names ps (ns.flatMap Node.texts) q ∧ Portion.Placed ps

namespace Parse

variable {g : Grammar} {α β : Type}

namespace Shows

/-! ### Ends of tags and bodies -/

theorem blockEnd (name : String) : Shows (fun _ xs => xs = [] ∧ True) (Parse.blockEnd name) := by
  intro p t q ho h
  obtain ⟨hkind, htakes, htrim⟩ := blockEnd_ok h
  have hplain : ∀ v ∈ [Portion.token t], v.isPlain = true := by simp [Portion.isPlain, hkind]
  refine ⟨_, [], .of_token htakes (by simp [hkind]) ?_, .of_isPlain hplain, rfl, trivial⟩
  simpa [Markers.dropsAfter, hkind, Parser.markers, Delimiters.markers] using htrim

theorem finish (name : String) : Shows (fun _ xs => xs = [] ∧ True) (Parse.finish name) :=
  inside (Inside.expect rfl _).ignore fun _ _ => blockEnd name

/-- What an action shows of which the result is not used. -/
theorem ignore {x : Parse α} (h : Shows (fun _ xs => xs = [] ∧ True) x) :
    Shows (fun _ xs => xs = [] ∧ True) (discard x) := h.map fun _ _ h => h

/-- An action that shows nothing is repeated. -/
theorem iterate {step : α → Parse (α ⊕ β)} {a : α}
    (hstep : ∀ a, Shows (fun _ xs => xs = [] ∧ True) (step a)) :
    Shows (fun _ xs => xs = [] ∧ True) (Parse.iterate step a) := by
  have hwithin : ∀ (fuel : Nat) (a : α),
      Shows (fun _ xs => xs = [] ∧ True) (iterateWithin step fuel a) := by
    intro fuel
    induction fuel with
    | zero => exact fun _ => inside Inside.get fun _ _ => failAt _ _
    | succ fuel ih =>
        intro a
        unfold Parse.iterateWithin
        refine (hstep a).after fun r _ => ?_
        cases r with
        | inl a => exact ih a
        | inr b => exact pure ⟨rfl, trivial⟩
  exact inside Inside.get fun p _ => hwithin p.size a

/-- An answer is kept where an action may fail, and the parser in both cases. -/
theorem tryCatch_eq (x : Parse α) (p : Parser) :
    (tryCatch (Except.ok <$> x) fun e => return .error e : Parse (Except TemplateError α)) p =
      (.ok (x p).1, (x p).2) := by
  simp only [tryCatch, tryCatchThe, MonadExceptOf.tryCatch, ExceptT.tryCatch, ExceptT.mk,
    Functor.map, ExceptT.map, Bind.bind, StateT.bind, Pure.pure]
  rcases x p with ⟨e | a, q⟩ <;> rfl

/-- The body of a statement, up to the name of the tag after it. -/
theorem body (hg : g.Shows) (opener : Token) (names : List String) :
    Shows (fun r xs => r.1.texts = xs) (Parse.body g opener names) := by
  intro p r q ho h
  obtain ⟨_, _, hopen, h⟩ := bind_eq_ok h
  cases hopen
  obtain ⟨answer, p₁, hanswer, h⟩ := bind_eq_ok h
  rw [tryCatch_eq] at hanswer
  generalize hnodes : g.nodes names _ = result at hanswer
  cases hanswer
  obtain ⟨_, _, hclose, h⟩ := bind_eq_ok h
  cases hclose
  obtain ⟨ns, p₂, hns, h⟩ := bind_eq_ok h
  obtain ⟨answer, p₁⟩ := result
  cases answer with
  | error e => cases hns
  | ok ns' =>
      cases hns
      obtain ⟨ps, hstops, hps⟩ := hg.nodes names _ _ _ (by exact ho) hnodes
      obtain ⟨o, p₃, hnext, h⟩ := bind_eq_ok h
      cases o with
      | none => cases h
      | some t =>
          obtain ⟨hshows, hkind⟩ := hstops.reopened.tag ho hnext
          dsimp only at h
          rw [if_pos hkind] at h
          obtain ⟨name, p₄, hpeek, h⟩ := bind_eq_ok h
          cases h
          obtain ⟨htakes, htrim, -⟩ := peek_ok (hshows.config ho ▸ ho) hpeek
          have hname : p₃.Shows [] [] q := .of_plain htakes (by simp) htrim
          have hplain : ∀ v ∈ [Portion.token t], v.isPlain = true := by simp [Portion.isPlain, hkind]
          refine ⟨_, _, hshows.trans ho hname, ?_, ?_⟩
          · simpa using hps.append (.of_isPlain hplain)
          · simp [Node.sequence]

end Shows

namespace GivesTexts

open Shows (inside)

variable {first : List String}

theorem pure {n : Node} (h : n.texts = first) : GivesTexts first (Pure.pure n) :=
  Shows.pure (by simpa using h)

/-- Something is given that is known. -/
theorem given {a : α} {f : α → Parse Node} (h : GivesTexts first (f a)) :
    GivesTexts first (Pure.pure a >>= f) :=
  inside (Inside.pure (Q := fun b => b = a) rfl) fun _ hb => hb ▸ h

/-- The end of a tag comes first. -/
theorem blockEnd {f : PUnit → Parse Node} (name : String) (h : ∀ u, GivesTexts first (f u)) :
    GivesTexts first (discard (Parse.blockEnd name) >>= f) :=
  (Shows.blockEnd name).ignore.after fun u _ => h u

theorem finish {f : PUnit → Parse Node} (name : String) (h : ∀ u, GivesTexts first (f u)) :
    GivesTexts first (discard (Parse.finish name) >>= f) :=
  (Shows.finish name).ignore.after fun u _ => h u

/-- A body comes first. -/
theorem body (hg : g.Shows) (opener : Token) (names : List String) {f : Node × String → Parse Node}
    (h : ∀ r, GivesTexts (first ++ r.1.texts) (f r)) :
    GivesTexts first (Parse.body g opener names >>= f) :=
  (Shows.body hg opener names).bind fun r xs hr => by
    subst hr
    simpa [GivesTexts] using h r

/-! ### Conditions and loops -/

/-- The texts of a statement that may be missing. -/
def optional (o : Option Node) : List String := o.toList.flatMap Node.texts

theorem branch (hg : g.Shows) : GivesTexts [] (Parse.branch g) := by
  unfold Parse.branch
  refine inside (Inside.expect rfl _) fun tag _ => inside hg.staysInside.expression
    fun condition hcondition => blockEnd _ fun _ => body hg _ _ fun ⟨body', closing⟩ => ?_
  have hsilent : condition.texts = [] := hcondition
  have hbranch : ∀ otherwise : Option Node, GivesTexts (body'.texts ++ optional otherwise) (do
      return .branch tag.position (tag.value == "ifAsync") condition body' otherwise) :=
    fun otherwise => pure (by simp [hsilent, optional])
  have hnone := hbranch none
  rw [optional, Option.toList_none, List.flatMap_nil, List.append_nil] at hnone
  dsimp only
  split
  · refine (hg.branch.map (R := fun o xs => optional o = xs) ?_).bind fun otherwise xs hxs => ?_
    · intro n xs hn
      simpa [optional] using hn
    · subst hxs
      simpa [GivesTexts] using hbranch otherwise
  · split
    · exact finish _ fun _ => body hg _ _ fun r => finish _ fun _ => given (by
        simpa [optional] using hbranch (some r.1))
    · exact finish _ fun _ => given hnone

end GivesTexts

namespace Inside

/-- Names, each after a comma. -/
theorem moreNames (what : String) {name : Node} (hname : name.Silent) :
    Inside AllSilent (Parse.moreNames what name) := by
  refine iterate (Q := AllSilent) (List.forall_mem_singleton.2 hname) fun names hnames =>
    (skip rfl).bind fun _ _ => ?_
  split
  · exact (symbol what).bind fun n hn => pure (hnames.concat hn)
  · exact pure hnames

/-- One name stands for itself as the target of a loop, several ones form an array. -/
theorem target {p : Position} {names : List Node} : AllSilent names → Inside Silent
    (match names with
      | [one] => Pure.pure one
      | names => Pure.pure (Node.group .array p names)) := by
  intro h
  split
  · exact pure (h _ List.mem_cons_self)
  · exact pure (Node.silent_group h)

theorem context : Inside (fun _ => True) context? := by
  have hrest : ∀ choice : Option Bool, InsideFrom (fun p => choice.isSome → p.Sees [.symbol]) (do
      if choice.isSome then
        discard Parse.next
        if !(← Parse.skipSymbol "context") then
          Parse.failHere "expected \"context\" after with/without"
      return choice) fun _ _ => True := by
    intro choice
    split
    · rename_i hchoice
      refine (InsideFrom.takeThen rfl (.of_inside ?_)).mono (fun p hp => hp hchoice)
        fun _ _ h => h
      exact (skipSymbol _).bind fun _ _ => guard (failHere _) fun _ => pure trivial
    · exact .of_inside (pure trivial)
  unfold context?
  have hsees : ∀ {value : String} {P : Parser → Prop}, Stable P → InsideFrom P
      (Parse.peekIs 0 .symbol value) fun b p => P p ∧ (b = true → p.Sees [.symbol]) := fun hP =>
    (InsideFrom.peekIs hP 0 _ _).mono (fun _ h => h) fun _ _ h => ⟨h.1, fun hb => sees_singleton (h.2 hb)⟩
  refine InsideFrom.bind ((hsees stable_true).mono (fun _ h => h) fun _ _ h => h.2) fun with? =>
    (hsees (stable_imp (stable_sees _))).bind fun without? => ?_
  simp only [pure_bind]
  split
  · rename_i hwith
    exact (hrest _).mono (fun _ h _ => h.1 hwith) fun _ _ h => h
  · split
    · rename_i hwithout
      exact (hrest _).mono (fun _ h _ => h.2 hwithout) fun _ _ h => h
    · exact (hrest none).mono (fun _ _ h => by cases h) fun _ _ h => h

theorem importName : Inside (fun _ => True) Parse.importName := by
  unfold Parse.importName
  refine (expect rfl _).bind fun name _ => guard (failAt _ _) fun _ => (skipSymbol _).bind fun _ _ => ?_
  split
  · exact (expect rfl _).bind fun _ _ => bind (Q := fun _ => True) (pure trivial) fun _ _ => pure trivial
  · exact bind (Q := fun _ => True) (pure trivial) fun _ _ => pure trivial

/-- Parameters: names, and names with a default. -/
theorem parameters (hg : g.StaysInside) : Inside Silent (Parse.parameters g) := by
  unfold Parse.parameters
  refine (signature hg).bind fun n hn => ?_
  dsimp only
  split
  · exact failAt _ _
  · exact pure hn

end Inside

namespace GivesTexts

open Shows (inside)

variable {first : List String}

theorem loop (hg : g.Shows) : GivesTexts [] (Parse.loop g) := by
  unfold Parse.loop
  refine inside (Inside.expect rfl _) fun tag _ => ?_
  generalize Parse.loopMode tag.value = kind
  obtain ⟨mode, endTag⟩ := kind
  refine inside (.symbol _) fun name hname => inside (.moreNames _ hname) fun names hnames => ?_
  have hrest : ∀ target : Node, target.Silent → GivesTexts [] (do
      if !(← Parse.skipSymbol "in") then Parse.failHere "expected \"in\" keyword for loop"
      let source ← g.expression
      discard <| Parse.blockEnd tag.value
      let r ← Parse.body g tag ["else", endTag]
      let otherwise ←
        if r.2 = "else" then do
          discard <| Parse.finish "else"
          let r ← Parse.body g tag [endTag]
          Pure.pure (some r.1)
        else Pure.pure none
      discard <| Parse.finish endTag
      return .loop tag.position mode source target r.1 otherwise) := by
    intro target htarget
    refine inside (.skipSymbol _) fun _ _ => Shows.guard (.failHere _) fun _ => ?_
    refine inside hg.staysInside.expression fun source hsource => blockEnd _ fun _ =>
      body hg _ _ fun r => ?_
    have hsilent : source.texts = [] ∧ target.texts = [] := ⟨hsource, htarget⟩
    have hloop : ∀ otherwise : Option Node, GivesTexts (r.1.texts ++ optional otherwise) (do
        discard <| Parse.finish endTag
        return .loop tag.position mode source target r.1 otherwise) := fun otherwise =>
      finish _ fun _ => pure (by simp [hsilent, optional])
    dsimp only
    split
    · refine finish _ fun _ => body hg _ _ fun r' => given ?_
      simpa [optional] using hloop (some r'.1)
    · refine given ?_
      simpa [optional] using hloop none
  have htarget := Inside.target (p := tag.position) hnames
  split
  · exact inside htarget hrest
  · exact inside (by simpa using htarget) hrest

/-! ### Inheritance and imports -/

theorem block (hg : g.Shows) : GivesTexts [] (Parse.block g) := by
  unfold Parse.block
  refine inside (.expect rfl _) fun tag _ => inside (.expect rfl _) fun name _ =>
    blockEnd _ fun _ => body hg _ _ fun r => ?_
  exact inside (Inside.expect rfl _).ignore fun _ _ => inside (Inside.skipSymbol _).ignore fun _ _ =>
    blockEnd _ fun _ => pure (by simp)

/-- A statement without texts. -/
theorem silent {n : Node} (h : n.Silent) : GivesTexts [] (Pure.pure n) := pure h

theorem extend (hg : g.Shows) : GivesTexts [] (Parse.extend g) := by
  unfold Parse.extend
  refine inside (.expect rfl _) fun tag _ => inside hg.staysInside.expression fun n hn =>
    blockEnd _ fun _ => silent (Node.silent_iff.2 ⟨rfl, ?_⟩)
  simpa [Node.children, Node.fields, Node.Field.nodes] using hn

theorem embed (hg : g.Shows) : GivesTexts [] (Parse.embed g) := by
  unfold Parse.embed
  refine inside (.expect rfl _) fun tag _ => inside hg.staysInside.expression fun n hn =>
    inside (.skipSymbol _) fun ignoreMissing _ => ?_
  have hrest : GivesTexts [] (do
      discard <| Parse.blockEnd "include"
      return .embed tag.position n ignoreMissing) :=
    blockEnd _ fun _ => silent (Node.silent_iff.2 ⟨rfl, by
      simpa [Node.children, Node.fields, Node.Field.nodes] using hn⟩)
  split
  · exact inside (.skipSymbol _) fun _ _ => Shows.guard (.failHere _) fun _ => hrest
  · exact hrest

theorem importAll (hg : g.Shows) : GivesTexts [] (Parse.importAll g) := by
  unfold Parse.importAll
  refine inside (.expect rfl _) fun tag _ => inside hg.staysInside.expression fun n hn =>
    inside (.skipSymbol _) fun _ _ => Shows.guard (.failHere _) fun _ => inside (.expect rfl _)
      fun target _ => inside .context fun _ _ => blockEnd _ fun _ => silent (Node.silent_iff.2 ⟨rfl, ?_⟩)
  simpa [Node.children, Node.fields, Node.Field.nodes] using hn

theorem importNames (hg : g.Shows) : GivesTexts [] (Parse.importNames g) := by
  unfold Parse.importNames
  refine inside (.expect rfl _) fun tag _ => inside hg.staysInside.expression fun n hn =>
    inside (.skipSymbol _) fun _ _ => Shows.guard (.failHere _) fun _ => ?_
  refine (Shows.iterate ?_).after fun ⟨all, _⟩ _ => silent (Node.silent_iff.2 ⟨rfl, ?_⟩)
  · rintro ⟨all, withContext⟩
    have hname : Inside (fun _ => True) (do
        let name ← Parse.importName
        let choice ← context?
        return .inl (all ++ [name], choice.orElse fun _ => withContext) :
          Parse ((List ImportName × Option Bool) ⊕ (List ImportName × Option Bool))) :=
      Inside.importName.bind fun _ _ => Inside.context.bind fun _ _ => .pure trivial
    refine inside (.peekKind 0) fun _ _ => ?_
    split
    · exact Shows.guard (.failHere _) fun _ => (Shows.blockEnd _).ignore.after fun _ _ =>
        Shows.pure ⟨rfl, trivial⟩
    · dsimp only
      split
      · exact inside (Inside.expect rfl _).ignore fun _ _ => Shows.of_inside hname
      · exact Shows.of_inside hname
  · simpa [Node.children, Node.fields, Node.Field.nodes] using hn

/-! ### Assignments, macros and calls -/

theorem assign (hg : g.Shows) : GivesTexts [] (Parse.assign g) := by
  unfold Parse.assign
  refine inside (.expect rfl _) fun tag _ => inside (.symbol _) fun name hname =>
    inside (.moreNames _ hname) fun targets htargets => inside (.skipValue rfl _) fun _ _ => ?_
  have hsilent := htargets.texts
  split
  · refine inside hg.staysInside.expression fun value hvalue => blockEnd _ fun _ => pure ?_
    have hvalue' : value.texts = [] := hvalue
    simp [hsilent, hvalue']
  · refine inside (.peekKind 0) fun _ _ => ?_
    split
    · exact blockEnd _ fun _ => body hg _ _ fun r => finish _ fun _ => pure (by simp [hsilent])
    · exact (Shows.of_inside (Inside.failHere (Q := fun _ => False) _)).mono fun _ _ h => h.2.elim

theorem definition (hg : g.Shows) : GivesTexts [] (Parse.definition g) := by
  unfold Parse.definition
  refine inside (.expect rfl _) fun tag _ => inside (.expect rfl _) fun name _ =>
    inside (.parameters hg.staysInside) fun parameters hparameters => blockEnd _ fun _ =>
      body hg _ _ fun r => finish _ fun _ => pure ?_
  have hsilent : parameters.texts = [] := hparameters
  simp [hsilent]

/-- The body of a call is the last thing that it is given. -/
theorem withCaller_texts {p : Position} {caller : Node} {arguments : List Node}
    (h : AllSilent arguments) : (withCaller p caller arguments).flatMap Node.texts = caller.texts := by
  have hname : (Node.symbol p "caller").texts = [] := Node.silent_symbol _ _
  unfold withCaller
  dsimp only
  split
  · rename_i q keywords hlast
    have hkeywords : keywords.flatMap Node.texts = [] := by
      have hsilent : (Node.group .keywords q keywords).texts = [] := h _ (List.mem_of_getLast? hlast)
      simpa using hsilent
    have hinit : arguments.dropLast.flatMap Node.texts = [] :=
      AllSilent.texts fun n hn => h n (List.dropLast_subset _ hn)
    simp [hinit, hkeywords, hname]
  · simp [h.texts, hname]

/-- The call of a macro with a body, behind the parameters of the body. -/
theorem calledBlock (hg : g.Shows) (tag : Token) (parameters : Node) (hparameters : parameters.Silent) :
    GivesTexts [] (do
      match ← Parse.primary g false with
      | .call p callee arguments =>
        discard <| Parse.blockEnd "call"
        let (body, _) ← Parse.body g tag ["endcall"]
        discard <| Parse.finish "endcall"
        let caller := Node.definition tag.position .caller "caller" parameters body
        let arguments' := Parse.withCaller tag.position caller arguments.members
        return .output tag.position (.call p callee (.sequence arguments.position arguments'))
      | _ => Parse.failAt .notMacroCall tag.position) := by
  refine inside (.primary hg.staysInside false) fun n hn => ?_
  split
  · rename_i p callee arguments
    refine blockEnd _ fun _ => body hg _ _ fun r => finish _ fun _ => pure ?_
    have hparts : callee.texts = [] ∧ arguments.texts = [] := by
      have hsilent : (Node.call p callee arguments).texts = [] := hn
      simpa using hsilent
    have harguments : AllSilent arguments.members := Node.Silent.member hparts.2
    have hparameters' : parameters.texts = [] := hparameters
    simp [Node.sequence, hparts.1, withCaller_texts harguments, hparameters']
  · exact Shows.failAt _ _

theorem callBlock (hg : g.Shows) : GivesTexts [] (Parse.callBlock g) := by
  unfold Parse.callBlock
  refine inside (.expect rfl _) fun tag _ => inside (.peekKind 0) fun _ _ => ?_
  split
  · exact inside (.parameters hg.staysInside) (calledBlock hg tag)
  · exact given (calledBlock hg tag _ (Node.silent_group .nil))

theorem filterBlock (hg : g.Shows) : GivesTexts [] (Parse.filterBlock g) := by
  unfold Parse.filterBlock
  refine inside (.expect rfl _) fun tag _ => inside .filterName fun name _ =>
    inside (.peekKind 0) fun _ _ => ?_
  have hrest : ∀ more : List Node, AllSilent more → GivesTexts [] (do
      discard <| Parse.blockEnd "filter"
      let r ← Parse.body g tag ["endfilter"]
      discard <| Parse.finish "endfilter"
      let arguments := Node.sequence tag.position (.capture tag.position r.1 :: more)
      return .output tag.position (.filter tag.position name arguments)) := fun more hmore =>
    blockEnd _ fun _ => body hg _ _ fun r => finish _ fun _ => pure (by
      simp [Node.sequence, hmore.texts])
  split
  · exact inside (.signature hg.staysInside) fun arguments harguments =>
      given (hrest _ harguments.member)
  · exact given (hrest [] .nil)

/-- No host added a tag. -/
theorem hostStatement (tag : Token) : GivesTexts [] (Parse.hostStatement g [] tag) := by
  unfold Parse.hostStatement
  rw [List.find?_nil]
  dsimp only
  split
  · refine inside .get fun p _ => ?_
    split
    · exact Shows.failAt _ _
    · exact Shows.failAt _ _
  · exact Shows.failAt _ _

end GivesTexts

/-! ### Raw text -/

/-- The text of a raw tag is taken as it stands. -/
theorem takeRaw_ok {l l' : Lexer} {name : String} {raw : RawText}
    (h : l.takeRaw name = some (raw, l')) : ∃ text trimBefore,
      l.IsRaw name text trimBefore raw.trimAfter l' ∧
        raw.text = String.ofList (Text.cutEnd trimBefore text) := by
  obtain ⟨⟨text, trimBefore, trimAfter, rest⟩, hraw, h⟩ := Option.map_eq_some_iff.1 h
  cases h
  exact ⟨text, trimBefore, ⟨rest, hraw, rfl⟩, rfl⟩

variable {p q : Parser} {t : Token}

/-- A raw tag shows its text. -/
theorem raw_ok {start tag : Token} {n : Node} (hp : p.upcoming = .ok (some tag))
    (hstart : start.kind = .blockStart) (hvalue : tag.value = "raw" ∨ tag.value = "verbatim")
    (h : raw p = (.ok n, q)) :
    ∃ ps, p.Shows ps n.texts q ∧ Portion.Placed (.token start :: ps) := by
  obtain ⟨tag', p₁, hexpect, h⟩ := bind_eq_ok h
  obtain ⟨htag, hupcoming, htakes, htrim⟩ := expect_ok hexpect
  obtain rfl : tag = tag' := by simpa [hp] using hupcoming
  obtain ⟨_, p₂, hend, h⟩ := bind_eq_ok h
  obtain ⟨stop, p₂', hend, h'⟩ := bind_eq_ok hend
  cases h'
  obtain ⟨hstop, htakes', htrim'⟩ := blockEnd_ok hend
  obtain ⟨_, _, hget, h⟩ := bind_eq_ok h
  cases hget
  -- The text is taken from the lexer, so no token behind the tag may wait in the buffer.
  cases hbuffer : p₂.buffer with
  | cons u rest =>
      rw [hbuffer] at h
      cases h
  | nil =>
      simp only [hbuffer, List.head?_nil] at h
      obtain ⟨_, _, hget, h⟩ := bind_eq_ok h
      cases hget
      cases hraw : p₂.lexer.takeRaw ("end" ++ tag.value) with
      | none =>
          simp only [hraw] at h
          cases h
      | some answer =>
          obtain ⟨raw, l⟩ := answer
          simp only [hraw] at h
          obtain ⟨_, _, hget, h⟩ := bind_eq_ok h
          cases hget
          cases h
          obtain ⟨text, trimBefore, hisRaw, htext⟩ := takeRaw_ok hraw
          let verbatim : Portion := .verbatim text trimBefore raw.trimAfter
          have hname : "end" ++ tag.value = "endraw" ∨ "end" ++ tag.value = "endverbatim" :=
            hvalue.imp (fun h => by rw [h]; rfl) fun h => by rw [h]; rfl
          have hverbatim : p₂.Takes [verbatim] { p₂ with lexer := l, trimNext := raw.trimAfter } :=
            ⟨[verbatim], .verbatim hname hisRaw (.nil l), by simp [hbuffer]⟩
          refine ⟨[.token tag, .token stop, verbatim], ⟨?_, ?_, ?_, fun o _ => ?_⟩,
            .verbatim hstart htag hvalue hstop⟩
          · exact (htakes.trans htakes').trans hverbatim
          · simp [verbatim]
          · simp [verbatim, Markers.drops, Markers.dropsAfter]
          · have hdrop : ∀ drop, p.markers.dropsAfter drop (.token stop) = p₂.trimNext := fun drop => by
              simp [Markers.dropsAfter, hstop, Parser.markers, Delimiters.markers, htrim']
            simp only [Node.texts_output, Node.texts_text, Markers.shown, Markers.shownOne, htag, hstop,
              hdrop, verbatim, htext, Text.cutStart]
            cases p₂.trimNext <;> simp

/-! ### Statements -/

/-- A statement; the start of its tag was taken. -/
theorem statement_shows (hg : g.Shows) {start : Token} (hstart : start.kind = .blockStart) :
    ShowsAfter [.token start] (fun n xs => n.texts = xs) (statement g []) := by
  intro p n q ho h
  obtain ⟨t, p₁, hpeek, h⟩ := bind_eq_ok h
  obtain ⟨htakes, htrim, -⟩ := peek_ok ho hpeek
  have ho₁ := htakes.config ho ▸ ho
  have hlooked : p.Shows [] [] p₁ := .of_plain htakes (by simp) htrim
  let Goal (x : Parse Node) : Prop := x p₁ = (.ok n, q) →
    ∃ ps xs, p.Shows ps xs q ∧ Portion.Placed ([.token start] ++ ps) ∧ n.texts = xs
  have hother : ∀ {x : Parse Node}, GivesTexts [] x → Goal x := by
    intro x hx h
    obtain ⟨ps, xs, hshows, hps, hn⟩ := hx p₁ n q ho₁ h
    exact ⟨ps, xs, hlooked.trans ho hshows, (Portion.Placed.token start).append hps, hn⟩
  -- Only a raw tag needs to know where it stands.
  have hraw : ∀ {tag : Token}, t = some tag → (tag.value = "raw" ∨ tag.value = "verbatim") → Goal raw := by
    rintro tag rfl hvalue h
    obtain ⟨ps, hshows, hps⟩ := raw_ok (peek_upcoming ho hpeek) hstart hvalue h
    exact ⟨ps, _, hlooked.trans ho hshows, hps, rfl⟩
  refine (show Goal _ from ?_) h
  cases t with
  | none => exact hother (Shows.endOfFile _)
  | some tag =>
      dsimp only
      split
      · exact hother (Shows.failAt _ _)
      · split
        · exact hraw rfl (.inl ‹_›)
        · exact hraw rfl (.inr ‹_›)
        · exact hother (.branch hg)
        · exact hother (.branch hg)
        · exact hother (.loop hg)
        · exact hother (.loop hg)
        · exact hother (.loop hg)
        · exact hother (.block hg)
        · exact hother (.extend hg)
        · exact hother (.embed hg)
        · exact hother (.assign hg)
        · exact hother (.definition hg)
        · exact hother (.callBlock hg)
        · exact hother (.importAll hg)
        · exact hother (.importNames hg)
        · exact hother (.filterBlock hg)
        · exact hother (.hostStatement tag)

/-! ### Nodes -/

/-- The marker of the token after a text is known. -/
theorem nextTrims_ok {trims : Bool} (ho : p.lexer.config.IsProper) (h : nextTrims p = (.ok trims, q)) :
    p.Takes [] q ∧ q.trimNext = p.trimNext ∧
      ∀ o, q.upcoming = .ok o → trims = o.any p.markers.before := by
  obtain ⟨_, _, hget, h⟩ := bind_eq_ok h
  cases hget
  obtain ⟨t, p₁, hpeek, h⟩ := bind_eq_ok h
  obtain ⟨htakes, htrim, -⟩ := peek_ok ho hpeek
  have hupcoming := peek_upcoming ho hpeek
  have hstep : q = p₁ ∧ trims = t.any p.markers.before := by
    cases t with
    | none =>
        cases h
        exact ⟨rfl, rfl⟩
    | some token =>
        simp only [Parser.markers, Delimiters.markers, Option.any_some]
        cases hkind : token.kind
        all_goals simp only [hkind] at h
        all_goals cases h
        all_goals exact ⟨rfl, rfl⟩
  obtain ⟨rfl, rfl⟩ := hstep
  refine ⟨htakes, htrim, fun o ho' => ?_⟩
  obtain rfl : t = o := by simpa [hupcoming] using ho'
  rfl

/-- The token that is known to come next is taken. -/
theorem taken_ok {u : Unit} (hp : p.upcoming = .ok (some t)) (h : discard next p = (.ok u, q)) :
    p.Takes [.token t] q ∧ q.trimNext = p.trimNext := by
  obtain ⟨o, r, hnext, h⟩ := bind_eq_ok h
  cases h
  obtain ⟨hupcoming, htakes, htrim, -⟩ := next_ok hnext
  obtain rfl : some t = o := by simpa [hp] using hupcoming
  exact ⟨htakes, htrim⟩

/-- A text is shown as the tokens next to it ask. -/
theorem text_ok {ns : List Node} (ho : p.lexer.config.IsProper) (hp : p.upcoming = .ok (some t))
    (hkind : t.kind = .data) (h : text t p = (.ok ns, q)) :
    p.Shows [.token t] (ns.flatMap Node.texts) q := by
  obtain ⟨_, p₁, hnext, h⟩ := bind_eq_ok h
  obtain ⟨htakes, htrim⟩ := taken_ok hp hnext
  obtain ⟨_, _, hget, h⟩ := bind_eq_ok h
  cases hget
  obtain ⟨_, _, hmodify, h⟩ := bind_eq_ok h
  cases hmodify
  obtain ⟨trims, p₂, htrims, h⟩ := bind_eq_ok h
  have hmarkers : p₁.markers = p.markers := by rw [Parser.markers, htakes.config ho, Parser.markers]
  obtain ⟨htakes', htrim', hmarker⟩ := nextTrims_ok (by exact htakes.config ho ▸ ho) htrims
  -- The marker before the text was kept from the token before it, that after it is looked up.
  have hcut : Text.cutEnd trims (Text.cutStart p.trimNext t.value.toList) =
      if trims then Text.trimEnd (if p₁.trimNext then Text.trimStart t.value.toList else t.value.toList)
      else if p₁.trimNext then Text.trimStart t.value.toList else t.value.toList := by
    rw [Text.cutEnd, Text.cutStart, htrim]
  dsimp only at h
  rw [← hcut] at h
  have hshown : q = p₂ ∧ ∀ o : Option Token, trims = o.any p.markers.before →
      ns.flatMap Node.texts = p.markers.shownOne p.trimNext o (.token t) := by
    simp only [Markers.shownOne, if_pos hkind]
    by_cases hempty : (Text.cutEnd trims (Text.cutStart p.trimNext t.value.toList)).isEmpty
    · rw [if_pos hempty] at h
      cases h
      exact ⟨rfl, fun o ho => by simp [← ho, hempty]⟩
    · rw [if_neg hempty] at h
      cases h
      exact ⟨rfl, fun o ho => by simp [← ho, hempty]⟩
  obtain ⟨rfl, hshown⟩ := hshown
  refine ⟨htakes.trans htakes', by simp, ?_, fun o ho' => ?_⟩
  · simpa [Markers.drops, Markers.dropsAfter, hkind] using htrim'
  · rw [Markers.shown, Markers.shown, List.append_nil]
    exact hshown o (hmarkers ▸ hmarker o ho')

/-- An output shows nothing, and its end tells what becomes of the next text. -/
theorem output_ok {g : Grammar} (hg : g.StaysInside) {n : Node} (ho : p.lexer.config.IsProper)
    (hp : p.upcoming = .ok (some t)) (hkind : t.kind = .variableStart)
    (h : output g t p = (.ok n, q)) :
    ∃ ps, p.Shows ps n.texts q ∧ Portion.Placed ps := by
  obtain ⟨_, p₁, hnext, h⟩ := bind_eq_ok h
  obtain ⟨htakes, -⟩ := taken_ok hp hnext
  obtain ⟨value, p₂, hvalue, h⟩ := bind_eq_ok h
  obtain ⟨⟨⟨ts, htakes₂, hts⟩, -⟩, hsilent⟩ :=
    hg.expression p₁ value p₂ (htakes.config ho ▸ ho) trivial hvalue
  obtain ⟨_, _, hmodify, h⟩ := bind_eq_ok h
  cases hmodify
  obtain ⟨last, p₃, hlast, h⟩ := bind_eq_ok h
  obtain ⟨hend, -, htakes₃, htrim⟩ := expect_ok hlast
  have hstep : n = .output t.position value ∧ p₃.Takes [] q ∧ q.trimNext = last.startsDashed := by
    dsimp only at h
    cases hdashed : last.startsDashed with
    | true =>
        rw [hdashed] at h
        cases h
        exact ⟨rfl, .refl p₃, rfl⟩
    | false =>
        rw [hdashed] at h
        cases h
        exact ⟨rfl, .refl _, htrim⟩
  obtain ⟨rfl, htakes₄, htrim'⟩ := hstep
  have hplain : ∀ v ∈ [.token t] ++ ts.map Portion.token ++ [.token last], v.isPlain = true := by
    have hinner := Markers.isPlain_of_inner hts
    simp only [List.forall_mem_append, List.forall_mem_singleton]
    exact ⟨⟨by simp [Portion.isPlain, hkind], hinner⟩, by simp [Portion.isPlain, hend]⟩
  have htaken := (htakes.trans htakes₂).trans (htakes₃.trans htakes₄)
  refine ⟨_, ?_, .of_isPlain hplain⟩
  have hvalue : value.texts = [] := hsilent
  rw [Node.texts_output, hvalue]
  refine .of_plain htaken hplain ?_
  rw [htrim', Markers.drops_append]
  simp [Markers.drops, Markers.dropsAfter, hend, Parser.markers, Delimiters.markers]

/-- A comment shows nothing, and its end tells what becomes of the next text. -/
theorem comment_ok {u : Unit} (hp : p.upcoming = .ok (some t)) (ho : p.lexer.config.IsProper)
    (hkind : t.kind = .comment) (h : comment t p = (.ok u, q)) : p.Shows [.token t] [] q := by
  obtain ⟨_, p₁, hnext, h⟩ := bind_eq_ok h
  obtain ⟨htakes, -⟩ := taken_ok hp hnext
  cases h
  refine .of_token htakes (by simp [hkind]) ?_
  simp [Markers.dropsAfter, hkind, Parser.markers, Delimiters.markers, htakes.config ho]

/-- An action is repeated: what each repetition keeps, and what the last of them gives. -/
theorem iterate_ok {α β : Type} {step : α → Parse (α ⊕ β)} {I : α → Parser → Prop}
    {R : β → Parser → Prop} (hstep : ∀ a p r q, I a p → step a p = (.ok r, q) → Sum.elim I R r q)
    {a : α} {b : β} (ha : I a p) (h : iterate step a p = (.ok b, q)) : R b q := by
  -- By induction on the fuel; a repetition that runs out of it gives nothing.
  have hwithin : ∀ (fuel : Nat) (a : α) (p : Parser), I a p →
      iterateWithin step fuel a p = (.ok b, q) → R b q := by
    intro fuel
    induction fuel with
    | zero => exact fun a p _ h => by cases h
    | succ fuel ih =>
        intro a p ha h
        obtain ⟨r, p₁, hr, h⟩ := bind_eq_ok h
        have hkept := hstep a p r p₁ ha hr
        cases r with
        | inl a => exact ih a p₁ hkept h
        | inr b =>
            cases h
            exact hkept
  obtain ⟨_, _, hget, h⟩ := bind_eq_ok h
  cases hget
  exact hwithin p.size a p ha h

/-- Nodes that were read so far show what their portions show. -/
def ReadSo (start : Parser) (ns : List Node) (p : Parser) : Prop :=
  ∃ ps, start.Shows ps (ns.flatMap Node.texts) p ∧ Portion.Placed ps

theorem ReadSo.more {start : Parser} {ns ms : List Node} {ps : List Portion}
    (ho : start.lexer.config.IsProper) (h : ReadSo start ns p)
    (hshows : p.Shows ps (ms.flatMap Node.texts) q) (hps : Portion.Placed ps) :
    ReadSo start (ns ++ ms) q := by
  obtain ⟨qs, hstart, hqs⟩ := h
  exact ⟨qs ++ ps, by simpa using hstart.trans ho hshows, hqs.append hps⟩

/-- What shows nothing adds no nodes. -/
theorem ReadSo.quiet {start : Parser} {ns : List Node} {ps : List Portion}
    (ho : start.lexer.config.IsProper) (h : ReadSo start ns p) (hshows : p.Shows ps [] q)
    (hps : Portion.Placed ps) : ReadSo start ns q := by
  have hmore : ReadSo start (ns ++ []) q := h.more ho (by simpa using hshows) hps
  rwa [List.append_nil] at hmore

/-- What looked at the next token shows nothing. -/
theorem ReadSo.looked {start : Parser} {ns : List Node} (ho : start.lexer.config.IsProper)
    (h : ReadSo start ns p) (htakes : p.Takes [] q) (htrim : q.trimNext = p.trimNext) :
    ReadSo start ns q := by
  have hshows : p.Shows [] [] q := .of_plain htakes (by simp) htrim
  exact h.quiet ho hshows (.of_isPlain (by simp))

/-- Nodes end where a tag starts that their statement goes on with, and the tag of any other statement
is read. -/
theorem tag_ok {g : Grammar} (hg : g.Shows) {names : List String} {start : Parser} {ns : List Node}
    {r : List Node ⊕ List Node} (ho : start.lexer.config.IsProper) (hread : ReadSo start ns p)
    (hp : p.buffer[0]? = some t) (hkind : t.kind = .blockStart)
    (h : (do
      modify fun p => { p with trimNext := false }
      let ends := (← peek 1).any fun t => t.kind = .symbol && names.contains t.value
      if ends then return .inr ns
      discard next
      return .inl (ns ++ [← statement g []]) : Parse (List Node ⊕ List Node)) p = (.ok r, q)) :
    Sum.elim (ReadSo start) (fun ns q => ∃ ps,
      start.Stops names ps (ns.flatMap Node.texts) q ∧ Portion.Placed ps) r q := by
  obtain ⟨qs, hstart, hqs⟩ := id hread
  have hop := hstart.config ho ▸ ho
  obtain ⟨_, _, hmodify, h⟩ := bind_eq_ok h
  cases hmodify
  obtain ⟨u, p₁, hpeek, h⟩ := bind_eq_ok h
  obtain ⟨htakes, htrim, ⟨rest, hbuffer⟩, hu, -⟩ := peek_ok (by exact hop) hpeek
  have htakes' : p.Takes [] p₁ := htakes
  obtain ⟨more, hmore⟩ : ∃ more, p₁.buffer = t :: more := by
    obtain ⟨tail, htail⟩ := List.head?_eq_some_iff.1 ((List.head?_eq_getElem?).trans hp)
    exact ⟨tail ++ rest, by rw [← hbuffer, htail, List.cons_append]⟩
  -- A tag that ends these nodes was only looked at: it is for their statement to take.
  by_cases hends : (u.any fun t => t.kind = .symbol && names.contains t.value) = true
  · simp only [if_pos hends] at h
    cases h
    have hlooked : p.Shows [] [] { q with trimNext := p.trimNext } := .of_plain htakes' (by simp) rfl
    refine ⟨qs, ⟨⟨p.trimNext, by simpa using hstart.trans ho hlooked⟩, .inr ⟨htrim, ?_⟩⟩, hqs⟩
    obtain ⟨u, rfl⟩ := Option.isSome_iff_exists.1 (Option.isSome_of_any hends)
    rw [hmore, List.getElem?_cons_succ, ← List.head?_eq_getElem?, List.head?_eq_some_iff] at hu
    obtain ⟨tail, rfl⟩ := hu
    have hname : u.kind = .symbol ∧ u.value ∈ names := by simpa using hends
    exact ⟨t, u, tail, hmore, hkind, hname.2⟩
  · simp only [if_neg hends] at h
    obtain ⟨_, p₂, hnext, h⟩ := bind_eq_ok h
    obtain ⟨htaken, htrim₂⟩ := taken_ok (t := t) (by simp [Parser.upcoming, hmore]) hnext
    obtain ⟨n, p₃, hn, h⟩ := bind_eq_ok h
    cases h
    have hopen : p.Shows [.token t] [] p₂ := .of_token (htakes'.trans htaken) (by simp [hkind])
      (by simp [htrim₂, htrim, Markers.dropsAfter, hkind])
    obtain ⟨ps, xs, hshows, hps, hxs⟩ :=
      statement_shows hg hkind p₂ n q (hopen.config hop ▸ hop) hn
    exact hread.more ho (by simpa [hxs] using hopen.trans hop hshows) hps

/-- Nodes show what their portions show. -/
theorem nodes_ok {g : Grammar} (hg : g.Shows) {names : List String} {ns : List Node}
    (ho : p.lexer.config.IsProper) (h : nodes g [] names p = (.ok ns, q)) :
    ∃ ps, p.Stops names ps (ns.flatMap Node.texts) q ∧ Portion.Placed ps := by
  -- By induction on the rounds of the loop: the nodes so far show what was read so far.  A round reads text,
  -- an output, a comment or a tag, and some tags end the loop.
  refine iterate_ok (I := ReadSo p) (R := fun ns q =>
    ∃ ps, p.Stops names ps (ns.flatMap Node.texts) q ∧ Portion.Placed ps) ?_ ?_ h
  · intro ns p₁ r q hread h
    obtain ⟨qs, hstart, hqs⟩ := id hread
    have ho₁ := hstart.config ho ▸ ho
    obtain ⟨t, p₂, hpeek, h⟩ := bind_eq_ok h
    obtain ⟨htakes, htrim, -, hbuffer, hend⟩ := peek_ok ho₁ hpeek
    have hupcoming := peek_upcoming ho₁ hpeek
    have hread := hread.looked ho htakes htrim
    have ho₂ := htakes.config ho₁ ▸ ho₁
    let Goal (x : Parse (List Node ⊕ List Node)) : Prop := x p₂ = (.ok r, q) →
      Sum.elim (ReadSo p) (fun ns q => ∃ ps,
        p.Stops names ps (ns.flatMap Node.texts) q ∧ Portion.Placed ps) r q
    refine (show Goal _ from ?_) h
    cases t with
    | none =>
        intro h
        cases h
        obtain ⟨ps, hshows, hps⟩ := hread
        refine ⟨ps, ⟨⟨q.trimNext, hshows⟩, .inl ⟨?_, hend rfl⟩⟩, hps⟩
        simpa using hbuffer
    | some t =>
        dsimp only
        split <;> rename_i hkind
        · exact tag_ok hg ho hread hbuffer hkind
        · intro h
          obtain ⟨ms, p₃, htext, h⟩ := bind_eq_ok h
          cases h
          exact hread.more ho (text_ok ho₂ hupcoming hkind htext)
            (.token t)
        · intro h
          obtain ⟨n, p₃, houtput, h⟩ := bind_eq_ok h
          cases h
          obtain ⟨ps, hshows, hps⟩ := output_ok hg.staysInside ho₂ hupcoming hkind houtput
          exact hread.more ho (by simpa using hshows) hps
        · intro h
          obtain ⟨_, p₃, hcomment, h⟩ := bind_eq_ok h
          cases h
          exact hread.quiet ho (comment_ok hupcoming ho₂ hkind hcomment) (.token t)
        · intro h
          cases h
  · exact ⟨[], .of_plain (.refl p) (by simp) rfl, .of_isPlain (by simp)⟩

end Parse

/-! ### Whole templates -/

open Parse

namespace Grammar

/-- A grammar gives what the portions show if the one inside of it does. -/
theorem Shows.step {g : Grammar} (hg : g.Shows) : (g.step []).Shows where
  staysInside := {
    expression := .expression hg.staysInside
    negation := .negation hg.staysInside
    unary := .unary hg.staysInside
    primary := .primary hg.staysInside }
  branch := .branch hg
  nodes _ _ _ _ ho h := nodes_ok hg ho h

/-- A grammar gives what the portions show however deep they nest. -/
theorem tied_shows (depth : Nat) : (tied [] depth).Shows := by
  induction depth with
  | zero =>
      have hfail : ∀ {α : Type} {Q : α → Prop}, Inside Q (do
          failAt .nestingTooDeep (← get).lexer.position) :=
        Inside.get.bind fun _ _ => Inside.failAt _ _
      exact ⟨⟨hfail, hfail, hfail, fun _ => hfail⟩,
        Shows.inside Inside.get fun _ _ => Shows.failAt _ _, fun _ _ _ _ _ h => by cases h⟩
  | succ depth ih =>
      have hstep := ih.step
      exact ⟨⟨hstep.staysInside.expression, hstep.staysInside.negation, hstep.staysInside.unary,
        hstep.staysInside.primary⟩, hstep.branch, hstep.nodes⟩

end Grammar

/-- **The texts of a template are what its portions show**, which are read of it up to its end. -/
theorem Node.ofSource_texts {config : Config} {source : String} {root : Node}
    (ho : (Lexer.ofString config source).config.IsProper)
    (h : Node.ofSource config [] source = .ok root) :
    ∃ ps l, (Lexer.ofString config source).Reads ps l ∧ l.rest = [] ∧ Portion.Placed ps ∧
      root.texts = config.delimiters.markers.shown false none ps := by
  unfold ofSource at h
  generalize hq : (template [] (Parser.ofString config source)).2 = q
  have hrun : template [] (Parser.ofString config source) = (.ok root, q) := Prod.ext h hq
  obtain ⟨ns, p, hnodes, hroot⟩ := bind_eq_ok hrun
  cases hroot
  obtain ⟨ps, ⟨⟨trimNext, hshows⟩, hstop⟩, hps⟩ := nodes_ok (Grammar.tied_shows _) (by exact ho) hnodes
  rcases hstop with ⟨hbuffer, hend⟩ | ⟨-, t, u, rest, -, -, hname⟩
  · obtain ⟨pulled, hreads, heq⟩ := hshows.takes
    obtain rfl : pulled = ps := by simpa [Parser.ofString, hbuffer] using heq
    have hupcoming : ({ q with trimNext := trimNext } : Parser).upcoming = .ok none := by
      simp [Parser.upcoming, hbuffer, Lexer.nextVisible_of_end hend]
    refine ⟨pulled, q.lexer, hreads, hend, hps, ?_⟩
    rw [Node.texts_group]
    exact hshows.texts none hupcoming
  · simp at hname

end Stencil
