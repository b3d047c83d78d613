/-
**Policies that rendering keeps.**

Which policies are kept by a run does not depend on each piece of the evaluator, only on a few laws:
what the host registered respects the policy, texts may be joined, and a tree that may run at a place
has parts that may run where they do.  This module states the laws, and what they give for the
actions that load and compile templates.

Main definitions:

* `Stencil.Node.bound`, `Stencil.Node.bindsUp`, `Stencil.Node.offers` — the names that a statement
  binds for the code around it, and how it binds them;
* `Stencil.Node.inherits` — whether a statement has to do with inheritance;
* `Stencil.Sites` — where code may run;
* `Stencil.Policy.Expects` — what is known of a part of a tree where errors of shape are watched for;
* `Stencil.Policy.Basic` — what a policy has to satisfy wherever code runs;
* `Stencil.Policy.Lawful` — what has to hold of the places where code runs, for the statements and
  expressions that no inheritance is involved in;
* `Stencil.Policy.Inherits` — and for blocks, overridden blocks and extended templates;
* `Stencil.Evaluator.Follows` — an evaluator that keeps a policy beside a reference.

Main results:

* `Stencil.Policy.Basic.compile`, `Stencil.Policy.Basic.load` — compiling and loading templates.
-/

import Stencil.Proofs.Evaluation.Store
import Stencil.Proofs.Shapes

set_option autoImplicit false

namespace Stencil

/-- The names that a statement binds for the code around it. -/
def Node.bound : Node → List String
  | .assign _ targets _ _ => targets.filterMap Node.asSymbol?
  | .definition _ .named name _ _ => [name]
  | .importAll _ _ target _ => [target]
  | .importNames _ _ names _ => names.map fun name => name.newName.getD name.name
  | .bind _ _ target => target.asSymbol?.toList
  | _ => []

/-- Whether a statement binds a name where it is bound already. -/
def Node.bindsUp : Node → Bool
  | .assign _ _ _ _ => true
  | _ => false

/-- Whether the names that a statement binds are offered for import. -/
def Node.offers : Node → Bool
  | .assign _ _ _ _ | .definition _ _ _ _ _ => true
  | _ => false

/-- Whether a statement has to do with inheritance. -/
def Node.inherits : Node → Bool
  | .block _ _ _ | .overridden _ _ _ | .extend _ _ => true
  | _ => false

/-- The defaults of a macro stand in pairs of its parameters. -/
theorem Render.pair_of_mem_defaultParameters {parameters : Node} {entry : String × Node}
    (h : entry ∈ Render.defaultParameters parameters) :
    ∃ p q, .pair p (.symbol q entry.1) entry.2 ∈ parameters.walk fun _ => false := by
  obtain ⟨n, hn, hentry⟩ := List.mem_flatMap.1 h
  cases parameters with
  | group kind p members =>
      have hwalk : ∀ {m : Node}, m ∈ (n.walk fun _ => false) →
          m ∈ (Node.group kind p members).walk fun _ => false :=
        Node.mem_walk_of_mem_children rfl (by
          simpa [Node.children, Node.fields, Node.Field.nodes, Node.members] using hn)
      split at hentry
      · rename_i q pairs
        obtain ⟨pair, hpair, heq⟩ := List.mem_filterMap.1 hentry
        split at heq
        · rename_i q' q'' name value
          cases heq
          refine ⟨q', q'', hwalk (Node.mem_walk_of_mem_children rfl ?_ (Node.mem_walk_self _ _))⟩
          simpa [Node.children, Node.fields, Node.Field.nodes] using hpair
        · cases heq
      · simp at hentry
  | _ => simp [Node.members] at hn

/-- The defaults of a macro are parts of its parameters. -/
theorem Render.mem_walk_of_mem_defaultParameters {parameters : Node} {entry : String × Node}
    (h : entry ∈ Render.defaultParameters parameters) :
    entry.2 ∈ parameters.walk fun _ => false := by
  obtain ⟨p, q, hpair⟩ := pair_of_mem_defaultParameters h
  refine Node.mem_walk_trans hpair (Node.mem_walk_of_mem_children rfl ?_ (Node.mem_walk_self _ _))
  simp [Node.children, Node.fields, Node.Field.nodes]

/-- Arguments that may be held. -/
def CallArgs.Admitted (π : Policy) (args : CallArgs) : Prop :=
  (∀ v ∈ args.positional, v.Admitted π) ∧ Bindings.Admitted π args.keywords

/-! ### Laws -/

/-- Where code may run. -/
structure Sites where
  /-- The names that nothing binds in the frames of loops. -/
  held : String → Prop
  /-- Where a tree may run. -/
  site : Scope → FrameId → Node → World → Prop
  /-- Where a whole template may run. -/
  root : ContextId → FrameId → World → Prop

/-- A policy under which the errors of trees that are not well shaped may arise. -/
def Policy.Careless (π : Policy) : Prop := ∀ c : Cause, c.isMisshapen = true → π.cause c

/-- Unless errors of shape may arise, a part of a tree plays its role. -/
def Policy.Expects (π : Policy) (r : Node.Role) (n : Node) : Prop :=
  π.Careless ∨ n.plays r = true

/-- Where a tree may be run as a statement. -/
def Policy.Runs (π : Policy) (σ : Sites) (scope : Scope) (frame : FrameId) (n : Node) (w : World) :
    Prop :=
  σ.site scope frame n w ∧ π.Expects .member n

/-- Where a tree may be evaluated. -/
def Policy.Evaluates (π : Policy) (σ : Sites) (scope : Scope) (frame : FrameId) (n : Node)
    (w : World) : Prop :=
  σ.site scope frame n w ∧ π.Expects .argument n

/-- What an empty source is compiled to. -/
def Compiled.blank : Compiled := ⟨.group .root .start [], []⟩

/-- What a policy has to satisfy wherever code runs. -/
structure Policy.Basic (π : Policy) (env : Environment) : Prop where
  tolerant : π.Tolerant
  -- what the host registered
  extensions : env.extensions = []
  globals : Bindings.Admitted π env.globals
  test : ∀ {name t}, env.tests.lookup name = some t → ∀ {v args e}, t v args = .error e →
    π.cause e.cause
  loader : ∀ loader ∈ env.loaders, ∀ name s,
    (loader.source name s).Apart (fun _ => True) π.cause s
  -- texts
  text_empty : π.text ""
  text_append : ∀ a b, π.text a → π.text b → π.text (a ++ b)
  written : ∀ {v text}, v.Admitted π → written env.config v = .ok text → π.text text
  -- templates
  built : ∀ {name source number c},
    Template.build env.config [] env.asyncFilters name source number = .ok c →
      π.built name source c
  unreadable : ∀ {name source number e},
    Template.build env.config [] env.asyncFilters name source number = .error e → π.cause e.cause
  blank : π.loaded "" .blank
  blocks : ∀ {name c}, π.Ready name c → ∀ b ∈ c.blocks, π.block b

/-- What has to hold of the places where code runs, for the statements and expressions that no
inheritance is involved in. -/
structure Policy.Lawful (π : Policy) (σ : Sites) (env : Environment) : Prop
    extends Policy.Basic π env where
  shared : ∀ {scope frame n v u}, u.state = v.state → u.may = v.may →
    (∀ p, v.Frozen p → u.Frozen p) → σ.site scope frame n v → σ.site scope frame n u
  child : ∀ {scope frame n c w}, σ.site scope frame n w → n.isApart = false → c ∈ n.children →
    σ.site scope frame c w
  shape : ∀ {scope frame n w}, σ.site scope frame n w → π.Careless ∨ n.isFormed = true
  content : ∀ {scope frame p content w}, σ.site scope frame (.text p content) w → π.text content
  filter : ∀ {name f}, env.filters.lookup name = some f → ∀ {scope frame p n v args},
    π.Triple (fun w => σ.site scope frame (.filter p name n) w ∧ v.Admitted π ∧
      ∀ a ∈ args, a.Admitted π) (f.apply v args) (f.apply v args) fun v _ => v.Admitted π
  loop : ∀ {scope frame p mode source target body otherwise w id bindings},
    σ.site scope frame (.loop p mode source target body otherwise) w →
    w.Made σ.held id ⟨bindings, some frame, false, false⟩ →
    (∀ m ∈ bindings, m.1 ∈ Render.loopNames target ∨ m.1 = "loop") → σ.site scope id body w
  write : ∀ {scope frame n w name}, σ.site scope frame n w → name ∈ n.bound →
    w.MayBind n.bindsUp frame name ∧
      (w.state.frames.isTopLevel frame = true → w.MayPublish n.offers scope.context name)
  declares : ∀ {scope frame p role name parameters body w number},
    σ.site scope frame (.definition p role name parameters body) w →
    π.declared ⟨number, name, Render.plainParameters parameters,
      Render.defaultParameters parameters, body, scope.path, role == .caller⟩
  call : ∀ {scope frame n w declared id f inner}, σ.site scope frame n w →
    π.declared declared → w.Made (fun _ => False) id f → f.topLevel = false →
    (f.parent = none ∨ f.isolated = true) →
    (inner.context = scope.context ∨ w.MadeContext inner.context) → inner.block = none →
    inner.path = declared.template → .parent inner.parent ∈ w.may →
      π.Runs σ inner id declared.body w ∧
        ∀ d ∈ declared.defaults, π.Evaluates σ inner id d.2 w
  root : ∀ {scope frame n w context id f}, σ.site scope frame n w → w.MadeContext context →
    w.Made (fun _ => False) id f → f.topLevel = true → (f.parent = none ∨ f.isolated = true) →
      σ.root context id w

/-- What a policy has to satisfy for blocks, overridden blocks and extended templates. -/
structure Policy.Inherits (π : Policy) (σ : Sites) : Prop where
  tree : ∀ {context frame c w scope}, σ.root context frame w → π.Ready scope.path c →
    scope.context = context → scope.block = none → .parent scope.parent ∈ w.may →
      π.Runs σ scope frame c.root w
  block : ∀ {scope frame n w b id inner}, σ.site scope frame n w → π.block b →
    w.Made (fun _ => False) id (Frames.inside frame true) → inner.context = scope.context →
    inner.path = b.template → inner.block = some b → .parent inner.parent ∈ w.may →
      π.Runs σ inner id b.body w
  overrides : ∀ {scope frame p name target w}, σ.site scope frame (.overridden p name target) w →
    (∀ x, target.asSymbol? = some x → w.MayBind false frame x) ∧
      (scope.block = none → π.cause (.superOutsideBlock name))
  extend : ∀ {scope frame p n w}, σ.site scope frame (.extend p n) w →
    .blocks scope.context ∈ w.may ∧ .parent scope.parent ∈ w.may

/-- An evaluator that keeps a policy beside a reference. -/
structure Evaluator.Follows (π : Policy) (σ : Sites) (ev ev' : Evaluator) : Prop where
  exec : ∀ scope n frame, π.Triple (π.Runs σ scope frame n) (ev.exec scope n frame)
    (ev'.exec scope n frame) fun text _ => π.text text
  eval : ∀ scope n frame, π.Triple (π.Evaluates σ scope frame n) (ev.eval scope n frame)
    (ev'.eval scope n frame) fun v _ => v.Admitted π
  root : ∀ id context frame lineage, π.Triple (σ.root context frame)
    (ev.root id context frame lineage) (ev'.root id context frame lineage)
    fun text _ => π.text text

namespace Policy.Lawful

variable {π : Policy} {σ : Sites} {env : Environment} {pre : World → Prop}

/-- A member of a list runs where the list does. -/
theorem member (hπ : π.Lawful σ env) {scope : Scope} {frame : FrameId} {n m : Node} {w : World}
    (h : σ.site scope frame n w) (hm : m ∈ n.members) : σ.site scope frame m w := by
  cases n with
  | group kind p children => exact hπ.child h rfl (by
      simpa [Node.children, Node.fields, Node.Field.nodes, Node.members] using hm)
  | _ => simp [Node.members] at hm

variable {scope : Scope} {frame : FrameId} {n c : Node} {w : World}

/-- A part of a node plays its role, unless errors of shape may arise. -/
theorem expects (hπ : π.Lawful σ env) (h : σ.site scope frame n w) {r : Node.Role}
    (hc : (r, c) ∈ n.parts) : π.Expects r c :=
  (hπ.shape h).imp id fun hformed => (Node.isFormed_iff.1 hformed).2 r c hc

/-- A part that is there to be evaluated may be evaluated. -/
theorem evaluates (hπ : π.Lawful σ env) (h : σ.site scope frame n w) (hn : n.isApart = false)
    (hc : (.value, c) ∈ n.parts) : π.Evaluates σ scope frame c w :=
  ⟨hπ.child h hn (Node.mem_children_of_mem_parts hc),
    (hπ.expects h hc).imp id Node.plays_argument⟩

/-- A part that is there to be run may be run. -/
theorem runs (hπ : π.Lawful σ env) (h : σ.site scope frame n w) (hn : n.isApart = false)
    (hc : (.statement, c) ∈ n.parts) : π.Runs σ scope frame c w :=
  ⟨hπ.child h hn (Node.mem_children_of_mem_parts hc),
    (hπ.expects h hc).imp id fun hplays => Node.plays_member (.inl hplays)⟩

/-- The arguments of a call may be evaluated. -/
theorem arguments (hπ : π.Lawful σ env) (h : σ.site scope frame n w) (hn : n.isApart = false)
    (hc : (.arguments, c) ∈ n.parts) {m : Node} (hm : m ∈ c.members) :
    π.Evaluates σ scope frame m w :=
  ⟨hπ.member (hπ.child h hn (Node.mem_children_of_mem_parts hc)) hm,
    (hπ.expects h hc).imp id fun hplays => Node.plays_argument_of_mem hplays hm⟩

end Policy.Lawful

/-- An error of shape arises only where one may. -/
theorem Policy.Expects.cause {π : Policy} {r : Node.Role} {n : Node} (h : π.Expects r n)
    (hn : n.plays r = false) {c : Cause} (hc : c.isMisshapen = true) : π.cause c :=
  h.elim (fun hcareless => hcareless c hc) fun hplays => by rw [hn] at hplays; cases hplays

/-! ### Templates -/

/-- A number is that of a template of a name. -/
def State.Names (s : State) (i : TemplateId) (name : String) : Prop :=
  ∃ t, s.templates[i]? = some t ∧ t.name = name

theorem State.Names.of_grows {s s' : State} {i : TemplateId} {name : String} (h : s.Names i name)
    (hgrows : s.Grows s') : s'.Names i name := by
  obtain ⟨t, ht, rfl⟩ := h
  obtain ⟨u, hu, hsame⟩ := hgrows.templates i t ht
  exact ⟨u, hu, hsame.1⟩

namespace Policy.Basic

variable {π : Policy} {env : Environment} {pre : World → Prop}

/-- Compiling a template, which is done at once. -/
theorem compile_eq (i : TemplateId) (s : State) :
    env.compile i s =
      match ((s.templates[i]?).getD default).compiled with
      | some compiled => .done (.ok compiled) s
      | none =>
        match Template.build env.config (env.extensions.map Extension.toTagReader)
          env.asyncFilters ((s.templates[i]?).getD default).name
          ((s.templates[i]?).getD default).source s.next with
        | .ok compiled => .done (.ok compiled) { s with
            next := s.next + compiled.blocks.length
            templates := s.templates.modify i fun t => { t with compiled := some compiled } }
        | .error e => .done (.error (e.through ((s.templates[i]?).getD default).name)) s := by
  simp only [Environment.compile, Environment.template, bind, Action.read, Poll.bind]
  cases ((s.templates[i]?).getD default).compiled with
  | some compiled => rfl
  | none =>
      simp only [Action.throughTemplate, Action.ofExcept, Poll.mapAnswer, id]
      cases Template.build env.config (env.extensions.map Extension.toTagReader) env.asyncFilters
        ((s.templates[i]?).getD default).name ((s.templates[i]?).getD default).source s.next with
      | ok compiled => rfl
      | error e => rfl

/-- An empty source is read at once, and so is a number that no template has. -/
theorem build_blank (config : Config) (asyncFilters : List String) (number : Nat) :
    Template.build config [] asyncFilters "" "" number = .ok .blank := rfl

theorem ready_blank (hπ : π.Basic env) : π.Ready "" .blank :=
  ⟨⟨"", hπ.built (build_blank env.config env.asyncFilters 0)⟩, hπ.blank⟩

theorem compile_blank (hπ : π.Basic env) {i : TemplateId} {s : State}
    (h : s.templates[i]? = none) : env.compile i s = .done (.ok .blank) s := by
  have hsame : s.templates.modify i (fun t => { t with compiled := some .blank }) =
      s.templates := by
    refine Array.ext_getElem? fun j => ?_
    rw [Array.getElem?_modify]
    split
    · rename_i hij
      rw [← hij, h, Option.map_none]
    · rfl
  rw [compile_eq, hπ.extensions, h]
  change Poll.done (.ok Compiled.blank) { s with
    next := s.next + 0
    templates := s.templates.modify i fun t => { t with compiled := some .blank } } = _
  rw [hsame, Nat.add_zero]

/-- Compiling a template keeps all that was there. -/
theorem compile_climbs (i : TemplateId) : (env.compile i).Climbs := by
  intro s
  rw [compile_eq]
  split
  · exact .refl s
  · rename_i hnone
    split
    · refine .setTemplates s (.modify Template.SameSource.refl _ _ _ fun t ht => ?_) (by omega)
      refine ⟨rfl, rfl, fun c' hc' => ?_⟩
      rw [ht, Option.getD_some] at hnone
      rw [hnone] at hc'
      cases hc'
    · exact .refl s

/-- Compiling a template of a name gives a tree that can be run under the name. -/
theorem compile_named (hπ : π.Basic env) (i : TemplateId) (name : String) :
    π.Triple (fun w => w.state.Names i name) (env.compile i) (env.compile i)
      fun c _ => π.Ready name c := by
  have hhosts : env.extensions.map Extension.toTagReader = [] := by rw [hπ.extensions]; rfl
  refine ⟨compile_climbs i, fun w hl hs hw => ?_⟩
  obtain ⟨t, ht, rfl⟩ := hw.now
  have hmem := Array.mem_of_getElem? ht
  have hgrows : (env.compile i w.state).Climbs w.state := compile_climbs i w.state
  rw [compile_eq, hhosts, ht, Option.getD_some] at hgrows ⊢
  -- compiled already; compiled now and kept; not to be compiled
  split
  · rename_i c hc
    exact fun _ => .inr ⟨rfl, hs, w, .refl w, rfl, .of_forall fun _ =>
      ⟨⟨_, hs.templates t hmem c hc⟩, hl t hmem c hc⟩⟩
  · rename_i hnone
    rw [hnone] at hgrows
    split
    · rename_i c hbuild
      have hbuilt := hπ.built hbuild
      rw [hbuild] at hgrows
      intro hl'
      refine .inr ⟨rfl, ?_, w.move _ hgrows, ?_, rfl, .of_forall fun _ => ⟨⟨_, hbuilt⟩, ?_⟩⟩
      · refine { hs with templates := fun u hu c' hc' => ?_ }
        change u ∈ w.state.templates.modify i fun t => { t with compiled := some c } at hu
        rcases mem_modify hu with hu | ⟨v, hv, rfl⟩
        · exact hs.templates u hu c' hc'
        · obtain rfl : t = v := Option.some.inj (ht.symm.trans hv)
          cases hc'
          exact hbuilt
      · exact World.step_move _ fun p _ _ => by cases p <;> rfl
      · refine hl' { t with compiled := some c } (Array.mem_of_getElem? (i := i) ?_) c rfl
        simp [Array.getElem?_modify, ht]
    · rename_i e hbuild
      refine fun _ => .inr ⟨rfl, hs, w, .refl w, rfl, ?_⟩
      change π.cause (e.through _).cause
      rw [e.cause_through]
      exact hπ.unreadable hbuild

/-- Compiling a template gives blocks that may be held. -/
theorem compile (hπ : π.Basic env) (i : TemplateId) :
    π.Triple pre (env.compile i) (env.compile i) fun c _ => ∀ b ∈ c.blocks, π.block b := by
  refine ⟨compile_climbs i, fun w hl hs hw => ?_⟩
  cases ht : w.state.templates[i]? with
  | none =>
      rw [hπ.compile_blank ht]
      exact fun _ => .inr ⟨rfl, hs, w, .refl w, rfl, .of_forall fun _ => hπ.blocks hπ.ready_blank⟩
  | some t =>
      have hnames : w.state.Names i t.name := ⟨t, ht, rfl⟩
      refine ((hπ.compile_named i t.name).2 w hl hs fun w' hw' =>
        hnames.of_grows hw'.grows).mono fun c _ _ hready => hready.mono fun _ h => hπ.blocks h

/-- Keeping a template concerns no frame, no context and no tree. -/
theorem keep (name : String) (source : Source) :
    π.Triple pre (Action.change (env.keep name source)) (Action.change (env.keep name source))
      fun _ _ => True := by
  have hkeep : ∀ s, ∃ caches, (env.keep name source s).2 = { s with
      templates := s.templates.push ⟨source.path, source.text, none⟩, caches := caches } := by
    intro s
    simp only [Environment.keep, Environment.newTemplate]
    split
    · exact ⟨_, rfl⟩
    · exact ⟨_, rfl⟩
  have hgrows : ∀ s : State, s.Grows (env.keep name source s).2 := by
    intro s
    obtain ⟨caches, heq⟩ := hkeep s
    rw [heq]
    exact (State.Grows.setTemplates s (.push Template.SameSource.refl _ _) (Nat.le_refl _)).trans
      (.setCaches _ caches)
  refine Triple.change hgrows fun w _ hs _ => ?_
  obtain ⟨caches, heq⟩ := hkeep w.state
  refine ⟨?_, w.move _ (hgrows w.state), World.step_move _ fun p _ _ => ?_, rfl,
    .of_forall fun _ => trivial⟩
  · rw [heq]
    refine { hs with templates := fun t ht c hc => ?_ }
    rcases Array.mem_push.1 ht with ht | rfl
    · exact hs.templates t ht c hc
    · cases hc
  · rw [heq]
    cases p <;> rfl

/-- A template is loaded by name. -/
theorem loadFrom (hπ : π.Basic env) (name : String) (parent : Option String)
    {loaders : List Loader} (h : ∀ loader ∈ loaders, loader ∈ env.loaders) :
    π.Triple pre (env.loadFrom name parent loaders) (env.loadFrom name parent loaders)
      fun _ _ => True := by
  induction loaders generalizing pre with
  | nil => exact Triple.pure fun _ _ => trivial
  | cons loader rest ih =>
      unfold Environment.loadFrom
      refine Triple.bind (m := fun _ _ => True) ?_ fun cached => ?_
      · exact Triple.read fun _ _ _ _ => .of_forall fun _ => trivial
      · cases cached with
        | some id => exact Triple.pure fun _ _ => trivial
        | none =>
            have hapart := hπ.loader loader (h loader List.mem_cons_self)
            refine Triple.bind (Triple.of_apart (fun _ hc => hc) (fun _ _ => hapart _)
              fun s => (hapart _ s).climbs) fun source => ?_
            cases source with
            | some source => exact (keep _ source).map fun _ _ _ _ => trivial
            | none => exact ih fun l hl => h l (List.mem_cons_of_mem _ hl)

theorem load (hπ : π.Basic env) (name : String) (parent : Option String)
    (ignoreMissing : Bool) :
    π.Triple pre (env.load name parent ignoreMissing) (env.load name parent ignoreMissing)
      fun _ _ => True := by
  unfold Environment.load
  refine (hπ.loadFrom name parent fun _ h => h).bind fun id => ?_
  cases id with
  | some id => exact Triple.pure fun _ _ => trivial
  | none =>
      cases ignoreMissing with
      | true => exact Triple.pure fun _ _ => trivial
      | false => exact Triple.fail fun _ _ => hπ.tolerant _ rfl

theorem loadRequired (hπ : π.Basic env) (name : String) (parent : Option String) :
    π.Triple pre (env.loadRequired name parent) (env.loadRequired name parent)
      fun _ _ => True := by
  unfold Environment.loadRequired
  refine (hπ.load name parent false).bind fun id => ?_
  cases id with
  | some id => exact Triple.pure fun _ _ => trivial
  | none => exact Triple.fail fun _ _ => hπ.tolerant _ rfl

end Policy.Basic

end Stencil
