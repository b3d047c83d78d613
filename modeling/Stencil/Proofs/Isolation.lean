/-
**Writes are isolated.**

An included template, a block, a macro and the body of a call run in frames of their own, and what they
bind is bound there.  Here a run is watched while it goes through the code of a template that includes,
renders or calls another piece of code: as soon as that piece changed a binding, a variable, an export
or a block that was there before, the watched run would fail.  It never does.  An import may write the
names that it binds, and no more.

The proviso is that no macro, no body of a call and no block extends a template: `extends` writes to the
context that it stands in.

Main definitions:

* `Stencil.Node.isBorder`, `Stencil.Node.writable` — the code that is watched, and what it may write;
* `Stencil.Evaluator.watched`, `Stencil.Evaluator.audited` — an evaluator that watches such code;
* `Stencil.Node.ExtendsInPlace` — trees in which nothing extends a template but the template itself;
* `Stencil.Environment.Separate` — a host that has no access to what a run holds.

Main results:

* `Stencil.Policy.isolation_lawful`, `Stencil.Policy.isolation_inherits` — what may be written where
  code runs;
* `Stencil.Environment.renderEntry_isolated` — **a run that is watched goes on as it does otherwise**.
-/

import Stencil.Proofs.Evaluation.Hosts
import Stencil.Proofs.Logic.Audit
import Stencil.Proofs.Syntax.Prepared

set_option autoImplicit false

namespace Stencil

/-! ### Runs that are watched -/

/-- Whether a node runs code that is not part of the code around it: another template, a block, a
macro or the body of a call. -/
def Node.isBorder : Node → Bool
  | .embed _ _ _ | .block _ _ _ | .call _ _ _ | .importAll _ _ _ _ | .importNames _ _ _ _ => true
  | _ => false

/-- What a node may write around it: the names that it binds, in its frame and its context, which
are none unless it is an import. -/
def Node.writable (n : Node) (context : ContextId) (frame : FrameId) : Set Place :=
  {p | ∃ x ∈ n.bound, p = .frame frame ∨ p = .binding frame x ∨ p = .context context ∨
    p = .member context x}

namespace Evaluator

/-- An evaluator that watches the code that is not part of the code around it. -/
noncomputable def watched (violation : Cause) (ev : Evaluator) : Evaluator where
  exec scope n frame :=
    if n.isBorder then
      Action.audit violation (n.writable scope.context frame) (ev.exec scope n frame)
    else ev.exec scope n frame
  eval scope n frame :=
    if n.isBorder then
      Action.audit violation (n.writable scope.context frame) (ev.eval scope n frame)
    else ev.eval scope n frame
  root := ev.root

/-- An evaluator with the calls inside of it tied `depth` times, watched on every level. -/
noncomputable def audited (env : Environment) (violation : Cause) : Nat → Evaluator
  | 0 => exhausted
  | depth + 1 => ((audited env violation depth).step env).watched violation

end Evaluator

/-! ### Templates that are extended in place -/

/-- Whether a node extends a template. -/
def Node.isExtend : Node → Bool
  | .extend _ _ => true
  | _ => false

/-- A tree in which no template is extended. -/
def Node.ExtendsNothing (n : Node) : Prop := n.Everywhere fun m => m.isExtend = false

instance (n : Node) : Decidable n.ExtendsNothing :=
  inferInstanceAs (Decidable (n.Everywhere fun m => m.isExtend = false))

/-- A tree in which no macro, no body of a call and no block extends a template. -/
def Node.ExtendsInPlace (n : Node) : Prop :=
  n.Everywhere fun m => m.isApart = true → m.ExtendsNothing

instance (n : Node) : Decidable n.ExtendsInPlace :=
  inferInstanceAs (Decidable (n.Everywhere fun m => m.isApart = true → m.ExtendsNothing))

/-- Code that can be run apart: it is tidy and extends no template. -/
def Node.RunsApart (n : Node) : Prop := n.IsTidy ∧ n.ExtendsNothing

/-- A macro whose code can be run apart. -/
def MacroDef.RunsApart (d : MacroDef) : Prop :=
  d.body.RunsApart ∧ ∀ entry ∈ d.defaults, entry.2.RunsApart

/-! ### The policy -/

/-- Only code that extends no template may be declared. -/
def Policy.isolation : Policy where
  text _ := True
  declared := MacroDef.RunsApart
  block b := b.body.RunsApart
  loaded _ c := c.root.ExtendsInPlace
  built name source c := ∃ config filters number,
    Template.build config [] filters name source number = .ok c
  cause _ := True
  stray _ := False

/-- A value in which no macro occurs but those of templates. -/
def Value.Clean (v : Value) : Prop := v.Admitted .isolation

/-- What the code of a tree writes where the tree runs may be written. -/
structure World.Permits (w : World) (scope : Scope) (frame : FrameId) (n : Node) : Prop where
  up : ∀ m ∈ n.level, m.bindsUp = true → w.Open (fun _ => False) frame
  names : ∀ m ∈ n.level, ∀ x ∈ m.bound, .frame frame ∈ w.may ∧ .binding frame x ∈ w.may
  placeholders : ∀ p name target, .overridden p name target ∈ n.level →
    ∀ x, target.asSymbol? = some x → .frame frame ∈ w.may ∧ .binding frame x ∈ w.may
  publish : ∀ m ∈ n.level, ∀ x ∈ m.bound, w.state.frames.isTopLevel frame = true →
    w.MayPublish m.offers scope.context x
  extend : ∀ p template, .extend p template ∈ n.level →
    .blocks scope.context ∈ w.may ∧ .parent scope.parent ∈ w.may

/-- Tidy code may run where it may write what it writes. -/
def Sites.isolated : Sites where
  held _ := False
  site scope frame n w := n.IsTidy ∧ n.ExtendsInPlace ∧ w.Permits scope frame n
  root context frame w := w.MadeContext context ∧ w.Open (fun _ => False) frame

namespace World.Permits

variable {w : World} {scope : Scope} {frame : FrameId} {n : Node}

/-- What may run may be run in part. -/
theorem child (h : w.Permits scope frame n) (hn : n.isApart = false) {c : Node}
    (hc : c ∈ n.children) : w.Permits scope frame c := by
  have hlevel : ∀ m ∈ c.level, m ∈ n.level := fun m hm => Node.mem_level_of_mem_children hn hc hm
  exact {
    up := fun m hm => h.up m (hlevel m hm)
    names := fun m hm => h.names m (hlevel m hm)
    placeholders := fun p name target hm => h.placeholders p name target (hlevel _ hm)
    publish := fun m hm => h.publish m (hlevel m hm)
    extend := fun p template hm => h.extend p template (hlevel _ hm) }

theorem of_eq {w' : World} (h : w.Permits scope frame n) (hstate : w'.state = w.state)
    (hmay : w'.may = w.may) : w'.Permits scope frame n where
  up m hm hup := (h.up m hm hup).of_eq hstate hmay
  names m hm x hx := hmay ▸ h.names m hm x hx
  placeholders p name target hm x hx := hmay ▸ h.placeholders p name target hm x hx
  publish m hm x hx htop := by
    obtain ⟨hcontext, hmember, hexported⟩ := h.publish m hm x hx (hstate ▸ htop)
    exact ⟨hmay ▸ hcontext, hmay ▸ hmember, fun hoffers => hmay ▸ hexported hoffers⟩
  extend p template hm := hmay ▸ h.extend p template hm

/-- The body of a loop runs in frames inside of the one that the loop runs in. -/
theorem inside (h : w.Permits scope frame n) {id : FrameId} {bindings : Bindings}
    (hmade : w.Made (fun _ => False) id ⟨bindings, some frame, false, false⟩) :
    w.Permits scope id n where
  up m hm hup := hmade.open_inside rfl (h.up m hm hup)
  names m hm x hx := ⟨hmade.may, hmade.names x not_false⟩
  placeholders p name target hm x hx := ⟨hmade.may, hmade.names x not_false⟩
  publish m hm x hx htop := by
    rw [hmade.isTopLevel] at htop
    cases htop
  extend := h.extend

/-- All code may run where everything may be written. -/
theorem of_open (hopen : w.Open (fun _ => False) frame)
    (hpublish : w.state.frames.isTopLevel frame = true → w.MadeContext scope.context)
    (hextend : n.ExtendsNothing ∨
      .blocks scope.context ∈ w.may ∧ .parent scope.parent ∈ w.may) :
    w.Permits scope frame n := by
  have hwrite := hopen.mayWrite
  exact {
    up := fun _ _ _ => hopen
    names := fun _ _ x _ => ⟨hwrite.1, hwrite.2 x not_false⟩
    placeholders := fun _ _ _ _ x _ => ⟨hwrite.1, hwrite.2 x not_false⟩
    publish := fun _ _ x _ htop =>
      ⟨(hpublish htop).may, (hpublish htop).members x, fun _ => (hpublish htop).exported⟩
    extend := fun p template hm => hextend.elim
      (fun h => absurd (h _ (Node.mem_walk_of_mem_level hm)) (by simp [Node.isExtend])) id }

/-- A part of an expression writes nothing where it runs. -/
theorem of_term (h : n.Term) : w.Permits scope frame n := by
  have hwrites : ∀ m ∈ n.level, m.bindsUp = false ∧ m.bound = [] ∧ m.inherits = false := by
    intro m hm
    have hterm := h m hm
    cases m with
    | definition p role name parameters body =>
        cases role with
        | named => cases hterm
        | caller => exact ⟨rfl, rfl, rfl⟩
    | group | literal | symbol | pair | binary | unary | compare | operand | choice | lookup
    | slice | call | filter => exact ⟨rfl, rfl, rfl⟩
    | _ => cases hterm
  exact {
    up := fun m hm hup => by rw [(hwrites m hm).1] at hup; cases hup
    names := fun m hm x hx => by rw [(hwrites m hm).2.1] at hx; cases hx
    placeholders := fun _ _ _ hm => by cases (hwrites _ hm).2.2
    publish := fun m hm x hx => by rw [(hwrites m hm).2.1] at hx; cases hx
    extend := fun _ _ hm => by cases (hwrites _ hm).2.2 }

/-- The code of a border writes no more than what the border may write around it. -/
theorem of_border (htidy : n.IsTidy) (hborder : n.isBorder = true)
    (hnames : ∀ x ∈ n.bound, .frame frame ∈ w.may ∧ .binding frame x ∈ w.may)
    (hpublish : ∀ x ∈ n.bound, w.state.frames.isTopLevel frame = true →
      w.MayPublish false scope.context x) : w.Permits scope frame n := by
  -- what runs where the border does is the border itself, or a part of an expression
  have hlevel : ∀ m ∈ n.level, m = n ∨ ∃ c : Node, c.Term ∧ m ∈ c.level := by
    intro m hm
    rcases Node.mem_walk_iff.1 hm with rfl | ⟨hapart, c, hc, hmc⟩
    · exact .inl rfl
    · refine .inr ⟨c, ?_, hmc⟩
      have hself := htidy.self
      cases n with
      | call p callee args =>
          have hc : c = callee ∨ c = args := by
            simpa [Node.children, Node.fields, Node.Field.nodes] using hc
          rcases hc with rfl | rfl
          · exact hself.1
          · exact hself.2
      | embed p template _ | importAll p template _ _ | importNames p template _ _ =>
          obtain rfl : c = template := by
            simpa [Node.children, Node.fields, Node.Field.nodes] using hc
          exact hself
      | block _ _ _ => cases hapart
      | _ => cases hborder
  have hself : n.bindsUp = false ∧ n.offers = false ∧ n.isExtend = false ∧
      ∀ p name target, n ≠ .overridden p name target := by
    cases n with
    | call | embed | importAll | importNames | block =>
        exact ⟨rfl, rfl, rfl, fun _ _ _ h => by cases h⟩
    | _ => cases hborder
  have hterm : ∀ {c : Node}, c.Term → w.Permits scope frame c := of_term
  constructor
  · intro m hm hup
    rcases hlevel m hm with rfl | ⟨c, hc, hmc⟩
    · rw [hself.1] at hup
      cases hup
    · exact (hterm hc).up m hmc hup
  · intro m hm
    rcases hlevel m hm with rfl | ⟨c, hc, hmc⟩
    · exact hnames
    · exact (hterm hc).names m hmc
  · intro p name target hm
    rcases hlevel _ hm with heq | ⟨c, hc, hmc⟩
    · exact absurd heq.symm (hself.2.2.2 p name target)
    · exact (hterm hc).placeholders p name target hmc
  · intro m hm
    rcases hlevel m hm with rfl | ⟨c, hc, hmc⟩
    · rw [hself.2.1]
      exact hpublish
    · exact (hterm hc).publish m hmc
  · intro p template hm
    rcases hlevel _ hm with rfl | ⟨c, hc, hmc⟩
    · cases hself.2.2.1
    · exact (hterm hc).extend p template hmc

end World.Permits

/-! ### Laws -/

/-- A host that has no access to what a run holds: filters and functions hand out no macros of their
own, and templates were compiled from what they say. -/
structure Environment.Separate (env : Environment) (s : State) : Prop where
  extensions : env.extensions = []
  loaders : ∀ loader ∈ env.loaders, ∀ name s,
    (loader.source name s).Apart (fun _ => True) (fun _ => True) s
  filters : ∀ name f, env.filters.lookup name = some f → ∀ v args s,
    (f.apply v args s).Apart (fun u => v.Clean → (∀ a ∈ args, a.Clean) → u.Clean)
      (fun _ => True) s
  globals : ∀ m ∈ env.globals, m.2.Clean
  functions : ∀ f ∈ s.functions, ∀ args v, f args = .ok v →
    args.Admitted .isolation → v.Clean
  compiled : ∀ t ∈ s.templates, ∀ c, t.compiled = some c → ∃ config filters number,
    Template.build config [] filters t.name t.source number = .ok c

namespace Node.RunsApart

variable {n : Node}

theorem child (h : n.RunsApart) {c : Node} (hc : c ∈ n.children) : c.RunsApart :=
  ⟨h.1.child hc, Everywhere.child h.2 hc⟩

/-- Nothing in code that extends no template extends one. -/
theorem extendsInPlace (h : n.RunsApart) : n.ExtendsInPlace :=
  fun _ hm _ => Everywhere.below h.2 hm

end Node.RunsApart

namespace Policy

variable {env : Environment} {s : State}

theorem isolation_basic (henv : env.Separate s) : isolation.Basic env where
  tolerant _ _ := trivial
  extensions := henv.extensions
  globals := henv.globals
  test _ _ _ _ _ := trivial
  loader := henv.loaders
  text_empty := trivial
  text_append _ _ _ _ := trivial
  written _ _ := trivial
  built h := ⟨_, _, _, h⟩
  unreadable _ := trivial
  blank := show Compiled.blank.root.ExtendsInPlace by decide
  blocks := by
    rintro name c ⟨⟨source, config, filters, number, hbuild⟩, hloaded⟩ b hb
    obtain ⟨htidy, htidies⟩ := Template.build_tidy hbuild
    obtain ⟨root, _, _, _, hblocks⟩ := Template.build_eq hbuild
    obtain ⟨_, p, hp⟩ := hblocks b hb
    refine ⟨htidies b hb, ?_⟩
    exact Node.Everywhere.child (hloaded _ hp rfl) (by
      simp [Node.children, Node.fields, Node.Field.nodes])

theorem isolation_lawful (henv : env.Separate s) : isolation.Lawful .isolated env where
  toBasic := isolation_basic henv
  shared hstate hmay _ h := ⟨h.1, h.2.1, h.2.2.of_eq hstate hmay⟩
  child h hn hc := ⟨h.1.child hc, h.2.1.child hc, h.2.2.child hn hc⟩
  shape _ := .inl fun _ _ => trivial
  content _ := trivial
  filter := by
    intro name f hf scope frame p n v args
    refine (Triple.of_apart (fun _ _ => trivial) (fun _ _ => henv.filters name f hf v args)
      fun s => (henv.filters name f hf v args s).climbs).keep.mono (fun _ h => h) ?_
    rintro u w ⟨⟨_, hv, hargs⟩, hu⟩
    exact hu hv hargs
  loop {scope frame p mode source target body otherwise w id bindings} h hmade _ := by
    have hbody : body ∈ (Node.loop p mode source target body otherwise).children := by
      simp [Node.children, Node.fields, Node.Field.nodes]
    exact ⟨h.1.child hbody, h.2.1.child hbody, (h.2.2.child rfl hbody).inside hmade⟩
  write {scope frame n w name} h hname := by
    have hself := Node.mem_level_self n
    refine ⟨?_, h.2.2.publish n hself name hname⟩
    -- what does not bind further out binds in its own frame
    cases hup : n.bindsUp with
    | true => exact (h.2.2.up n hself hup).mayBind not_false
    | false =>
        rintro target (rfl | ⟨h, _⟩) _
        · exact h.2.2.names n hself name hname
        · cases h
  declares {scope frame p role name parameters body w number} h := by
    have hnode : (Node.definition p role name parameters body).RunsApart := ⟨h.1, h.2.1.self rfl⟩
    have hparameters : parameters.RunsApart := hnode.child List.mem_cons_self
    refine ⟨hnode.child (by simp [Node.children, Node.fields, Node.Field.nodes]), ?_⟩
    intro entry hentry
    have hmem := Render.mem_walk_of_mem_defaultParameters hentry
    exact ⟨hparameters.1.below hmem, hparameters.2.below hmem⟩
  call {scope frame n w declared id f inner} _ hdeclared hmade htop hborder _ _ _ _ := by
    have hinner : ∀ n : Node, n.RunsApart → Sites.isolated.site inner id n w := by
      -- the body runs behind a border of its own, and below the top level
      refine fun n hn => ⟨hn.1, hn.extendsInPlace, .of_open (hmade.open_border hborder) ?_
        (.inl hn.2)⟩
      intro htop'
      rw [hmade.isTopLevel, htop] at htop'
      cases htop'
    exact ⟨⟨hinner _ hdeclared.1, .inl fun _ _ => trivial⟩, fun d hd =>
      ⟨hinner _ (hdeclared.2 d hd), .inl fun _ _ => trivial⟩⟩
  root _ hcontext hmade _ hborder := ⟨hcontext, hmade.open_border hborder⟩

/-- Inheritance keeps the policy. -/
theorem isolation_inherits : isolation.Inherits .isolated where
  tree h hready hcontext _ hparent := by
    obtain ⟨⟨source, config, filters, number, hbuild⟩, hloaded⟩ := hready
    refine ⟨⟨(Template.build_tidy hbuild).1, hloaded, .of_open h.2 (fun _ => hcontext ▸ h.1) ?_⟩,
      .inl fun _ _ => trivial⟩
    exact .inr ⟨hcontext ▸ h.1.blocks, hparent⟩
  block _ hblock hmade _ _ _ _ := by
    refine ⟨⟨hblock.1, hblock.extendsInPlace, .of_open (hmade.open_border (.inr rfl)) ?_
      (.inl hblock.2)⟩, .inl fun _ _ => trivial⟩
    intro htop
    rw [hmade.isTopLevel] at htop
    cases htop
  overrides h := by
    refine ⟨fun x hx => ?_, fun _ => trivial⟩
    rintro target (rfl | ⟨h, _⟩) _
    · exact h.2.2.placeholders _ _ _ (Node.mem_level_self _) x hx
    · cases h
  extend h := h.2.2.extend _ _ (Node.mem_level_self _)

end Policy

/-! ### Runs -/

/-- Code that is watched may run where it may write no more than what it may write around it. -/
theorem World.Permits.restrict {w : World} {scope : Scope} {frame : FrameId} {n : Node}
    (htidy : n.IsTidy) (hborder : n.isBorder = true) (h : w.Permits scope frame n) :
    Always (fun v => v.Permits scope frame n)
      (w.restrict (n.writable scope.context frame)) := by
  intro v hv
  have hself := Node.mem_level_self n
  have hoffers : n.offers = false := by
    cases n with
    | call | embed | importAll | importNames | block => rfl
    | _ => cases hborder
  refine .of_border htidy hborder (fun x hx => ?_) fun x hx htop => ?_
  · obtain ⟨hframe, hbinding⟩ := h.names n hself x hx
    exact ⟨hv.may_le ⟨hframe, x, hx, .inl rfl⟩, hv.may_le ⟨hbinding, x, hx, .inr (.inl rfl)⟩⟩
  · have hexists : frame < w.state.frames.size := w.may_exists _ (h.names n hself x hx).1
    rw [Policy.Triple.isTopLevel_eq hv.grows hexists] at htop
    obtain ⟨hcontext, hmember, _⟩ := h.publish n hself x hx htop
    refine ⟨hv.may_le ⟨hcontext, x, hx, .inr (.inr (.inl rfl))⟩,
      hv.may_le ⟨hmember, x, hx, .inr (.inr (.inr rfl))⟩, fun h => by cases h⟩

namespace Evaluator.Follows

open Policy

variable {env : Environment} {ev ev' : Evaluator}

/-- An evaluator does the same if it is watched. -/
theorem watched (violation : Cause) (hev : Follows .isolation .isolated ev ev') :
    Follows .isolation .isolated ev (ev'.watched violation) := by
  have hborder : ∀ {α : Type} {Q : α → Prop} {x x' : Action α} {scope : Scope} {n : Node}
      {frame : FrameId} {P : Prop},
      isolation.Triple (fun w => Sites.isolated.site scope frame n w ∧ P) x x' (fun a _ => Q a) →
        isolation.Triple (fun w => Sites.isolated.site scope frame n w ∧ P) x
          (if n.isBorder then Action.audit violation (n.writable scope.context frame) x' else x')
          fun a _ => Q a := by
    intro α Q x x' scope n frame P h
    split
    · rename_i hborder
      refine h.audit violation (fun _ hc => hc) fun w hw => ?_
      obtain ⟨⟨htidy, hplace, hpermits⟩, hP⟩ := hw.now
      exact (hpermits.restrict htidy hborder).mono fun v hv => ⟨⟨htidy, hplace, hv⟩, hP⟩
    · exact h
  exact {
    exec := fun scope n frame => hborder (hev.exec scope n frame)
    eval := fun scope n frame => hborder (hev.eval scope n frame)
    root := hev.root }

/-- An evaluator does the same if it is watched on every level. -/
theorem audited {s : State} (henv : env.Separate s) (violation : Cause) (depth : Nat) :
    Follows .isolation .isolated (.tied env depth) (.audited env violation depth) := by
  have hπ := isolation_lawful henv
  induction depth with
  | zero => exact .exhausted hπ
  | succ depth ih => exact (ih.step hπ isolation_inherits).watched violation

end Evaluator.Follows

/-- **A run that is watched goes on as it does otherwise**, so what an include, a block, a call of a
macro or the body of a call writes was made by it, and an import only binds its names.  All templates
that are loaded in the end have to extend others in place. -/
theorem Environment.renderEntry_isolated {env : Environment} (violation : Cause) {depth n : Nat}
    {entry : Entry} {data : Value} {s s' : State} {r : Option (Except TemplateError String)}
    (henv : env.Separate s) (hdata : data.Clean)
    (hloaded : ∀ t ∈ s'.templates, ∀ c, t.compiled = some c → c.root.ExtendsInPlace)
    (hrun : ((env.renderEntry depth entry data) s).finish n = (r, s')) :
    ((env.renderWith (.audited env violation depth) entry data) s).finish n = (r, s') := by
  have hπ := Policy.isolation_lawful henv
  have hinitial : Policy.isolation.Initial s :=
    ⟨henv.compiled, henv.functions, fun _ _ _ _ _ => trivial⟩
  have hstarts : Sites.isolated.Starts := fun _ _ _ hcontext hmade =>
    ⟨hcontext, hmade.open_border (.inl rfl)⟩
  have hev := Evaluator.Follows.audited henv violation depth
  rcases hev.renderWith hπ hstarts hdata hinitial hrun hloaded with ⟨_, _, h, _⟩ | ⟨h, _⟩
  · exact h.elim
  · exact h

/-- A host that registers nothing of its own is as the theorem asks for. -/
theorem Environment.Bare.separate {env : Environment} {s : State} (h : env.Bare s) :
    env.Separate s where
  extensions := h.extensions
  loaders := h.apart _
  filters _ _ hf v args s := h.filter_apart (fun _ => trivial) _ hf v args s
  globals m hm := .plain (h.globals m hm)
  functions f hf args v hv _ := by
    obtain rfl := h.functions f hf
    exact Value.range_admitted hv
  compiled t ht := by simp [h.templates] at ht

/-- A page whose parts bind a name that is bound around them. -/
def Environment.shadowing : Environment × State := ofMemory [
  ("page", "\x7b% set a = 1 %\x7d\x7b% macro m() %\x7d\x7b% set a = 2 %\x7d" ++
    "\x7b\x7b a \x7d\x7d\x7b\x7b caller() \x7d\x7d\x7b% endmacro %\x7d" ++
    "\x7b% include 'part' %\x7d\x7b% block b %\x7d\x7b% set a = 3 %\x7d" ++
    "\x7b\x7b a \x7d\x7d\x7b% endblock %\x7d\x7b% call m() %\x7d\x7b% set a = 4 %\x7d" ++
    "\x7b\x7b a \x7d\x7d\x7b% endcall %\x7d\x7b\x7b a \x7d\x7d"),
  ("part", "\x7b% set a = 5 %\x7d\x7b\x7b a \x7d\x7d")]

/-- An included template, a macro, the body of a call and a block. -/
theorem Environment.renderEntry_isolated_of_shadowing :
    ∃ run, ((shadowing.1.renderEntry 20 (.named "page") .nothing) shadowing.2).finish 0 = run ∧
      (run.1.bind Except.toOption = some "53241" ∧
        ∀ t ∈ run.2.templates.toList,
          (t.compiled.all fun c => decide c.root.ExtendsInPlace) = true) ∧
      ((shadowing.1.renderWith (.audited shadowing.1 .suspended 20) (.named "page") .nothing)
        shadowing.2).finish 0 = run := by
  refine ⟨_, rfl, (fun h => ⟨h, ?_⟩) ?computed⟩
  case computed => decide +kernel
  have hdata : Value.nothing.Clean := .plain rfl
  have hrun := Poll.eq_of_toOption h.1
  rw [hrun]
  refine renderEntry_isolated .suspended (ofMemory_bare _).separate hdata (fun t ht c hc => ?_) hrun
  have hall := h.2 t (Array.mem_toList_iff.2 ht)
  rw [hc, Option.all_some, decide_eq_true_iff] at hall
  exact hall

end Stencil
