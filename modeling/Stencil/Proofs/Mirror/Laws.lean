/-
**What a mirror asks of frames, contexts and hosts.**

That two runs stay related does not depend on each piece of the evaluator, only on a few laws:
frames and contexts are made, read and written alike, templates that are loaded are alike, and what
the hosts registered gives related results from related arguments.

Main definitions:

* `Stencil.BlockDef.Alike`, `Stencil.Compiled.Alike`, `Stencil.Context.Alike`,
  `Stencil.Scope.Alike` — parts of a run that are the same but for the trees in them;
* `Stencil.Mirror.Frames` — frames that are alike where a run makes them;
* `Stencil.Mirror.Store` — how frames and contexts have to be related;
* `Stencil.Mirror.Serves`, `Stencil.Mirror.Keeps` — what has to hold of what was registered for the
  two runs, without and with iterations that run at once;
* `Stencil.Evaluator.Mirrored` — two evaluators that give related results.
-/

import Stencil.Proofs.Mirror.Rules

set_option autoImplicit false

namespace Stencil

/-- Two definitions of a block that are the same but for the bodies. -/
structure BlockDef.Alike (R : Node → Node → Prop) (b b' : BlockDef) : Prop where
  number : b'.number = b.number
  name : b'.name = b.name
  body : R b.body b'.body
  template : b'.template = b.template

/-- Two trees that are related, with definitions of blocks that are. -/
structure Compiled.Alike (R : Node → Node → Prop) (c c' : Compiled) : Prop where
  root : R c.root c'.root
  blocks : List.Forall₂ (BlockDef.Alike R) c.blocks c'.blocks

/-- Two contexts that are the same but for the trees in them. -/
structure Context.Alike (R : Node → Node → Prop) (c c' : Context) : Prop where
  globals : Bindings.Alike R c.globals c'.globals
  bindings : Bindings.Alike R c.bindings c'.bindings
  blocks : List.Forall₂ (fun e e' : String × List BlockDef =>
    e'.1 = e.1 ∧ List.Forall₂ (BlockDef.Alike R) e.2 e'.2) c.blocks c'.blocks
  exported : c'.exported = c.exported

/-- Two scopes that are the same but for the bodies of the blocks they are in. -/
structure Scope.Alike (R : Node → Node → Prop) (scope scope' : Scope) : Prop where
  context : scope'.context = scope.context
  path : scope'.path = scope.path
  parent : scope'.parent = scope.parent
  block : Option.Rel (BlockDef.Alike R) scope.block scope'.block

/-! ### Equal trees -/

section Equal

variable {R : Node → Node → Prop}

theorem BlockDef.Alike.refl (hR : ∀ n, R n n) (b : BlockDef) : b.Alike R b := ⟨rfl, rfl, hR _, rfl⟩

theorem BlockDef.Alike.eq (hR : ∀ n n', R n n' → n' = n) {b b' : BlockDef} (h : b.Alike R b') :
    b' = b := by
  obtain ⟨hnumber, hname, hbody, htemplate⟩ := h
  have hbody := hR _ _ hbody
  cases b
  cases b'
  simp only [BlockDef.mk.injEq]
  exact ⟨hnumber, hname, hbody, htemplate⟩

theorem Compiled.Alike.refl (hR : ∀ n, R n n) (c : Compiled) : c.Alike R c :=
  ⟨hR _, List.forall₂_same.2 fun _ _ => .refl hR _⟩

theorem Compiled.Alike.eq (hR : ∀ n n', R n n' → n' = n) {c c' : Compiled} (h : c.Alike R c') :
    c' = c := by
  have hroot := hR _ _ h.root
  have hblocks := eq_of_forall₂ (fun _ _ hb => hb.eq hR) h.blocks
  cases c
  cases c'
  simp only [Compiled.mk.injEq]
  exact ⟨hroot, hblocks⟩

theorem Context.Alike.refl (hR : ∀ n, R n n) (c : Context) : Context.Alike R c c where
  globals := .refl hR _
  bindings := .refl hR _
  blocks := List.forall₂_same.2 fun _ _ => ⟨rfl, List.forall₂_same.2 fun _ _ => .refl hR _⟩
  exported := rfl

theorem Context.Alike.eq (hR : ∀ n n', R n n' → n' = n) {c c' : Context}
    (h : Context.Alike R c c') : c' = c := by
  have hglobals := h.globals.eq hR
  have hbindings := h.bindings.eq hR
  have hblocks := eq_of_forall₂ (fun _ _ he =>
    Prod.ext he.1 (eq_of_forall₂ (fun _ _ hb => hb.eq hR) he.2)) h.blocks
  have hexported := h.exported
  cases c
  cases c'
  simp only [Context.mk.injEq]
  exact ⟨hglobals, hbindings, hblocks, hexported⟩

theorem Scope.Alike.refl (hR : ∀ n, R n n) (scope : Scope) : Scope.Alike R scope scope := by
  refine ⟨rfl, rfl, rfl, ?_⟩
  cases scope.block with
  | none => exact .none
  | some b => exact .some (.refl hR b)

theorem Scope.Alike.eq (hR : ∀ n n', R n n' → n' = n) {scope scope' : Scope}
    (h : Scope.Alike R scope scope') : scope' = scope := by
  obtain ⟨hcontext, hpath, hparent, hblock⟩ := h
  have hblock := eq_of_optionRel (fun _ _ hb => hb.eq hR) hblock
  cases scope
  cases scope'
  simp only [Scope.mk.injEq]
  exact ⟨hcontext, hpath, hparent, hblock⟩

end Equal

/-! ### Blocks of contexts -/

namespace Context.Alike

variable {R : Node → Node → Prop} {c c' : Context}

theorem lookup (h : Context.Alike R c c') (name : String) :
    (c.lookup name).Alike R (c'.lookup name) := by
  unfold Context.lookup
  have hb := h.bindings.get? name
  generalize c.bindings.get? name = o, c'.bindings.get? name = o' at hb
  cases hb with
  | none => exact h.globals.getD name
  | some hv => exact hv

theorem bind (h : Context.Alike R c c') {v v' : Value} (hv : v.Alike R v') (name : String) :
    Context.Alike R (c.bind name v) (c'.bind name v') :=
  { h with bindings := h.bindings.insert hv name }

theorem addExport (h : Context.Alike R c c') (name : String) :
    Context.Alike R (c.addExport name) (c'.addExport name) := by
  unfold Context.addExport
  rw [h.exported]
  split
  · exact h
  · exact { h with exported := rfl }

theorem exports (h : Context.Alike R c c') : Bindings.Alike R c.exports c'.exports := by
  unfold Context.exports Bindings.Alike
  rw [h.exported, List.forall₂_map_left_iff, List.forall₂_map_right_iff]
  exact List.forall₂_same.2 fun name _ => ⟨rfl, h.bindings.getD name⟩

/-- What a name has in two lists of definitions. -/
theorem entries (h : Context.Alike R c c') (name : String) :
    List.Forall₂ (BlockDef.Alike R) (c.entries name) (c'.entries name) := by
  unfold Context.entries Named.get?
  have hblocks := h.blocks
  generalize c.blocks = blocks, c'.blocks = blocks' at hblocks
  induction hblocks with
  | nil => exact .nil
  | @cons e e' _ _ he _ ih =>
      obtain ⟨key, bs⟩ := e
      obtain ⟨key', bs'⟩ := e'
      obtain ⟨rfl : key' = key, hbs⟩ := he
      simp only [List.lookup_cons]
      cases name == key' with
      | true => exact hbs
      | false => exact ih

theorem insertBlocks {blocks blocks' : Named (List BlockDef)} {bs bs' : List BlockDef}
    (h : List.Forall₂ (fun e e' : String × List BlockDef =>
      e'.1 = e.1 ∧ List.Forall₂ (BlockDef.Alike R) e.2 e'.2) blocks blocks')
    (hbs : List.Forall₂ (BlockDef.Alike R) bs bs') (name : String) :
    List.Forall₂ (fun e e' : String × List BlockDef =>
      e'.1 = e.1 ∧ List.Forall₂ (BlockDef.Alike R) e.2 e'.2) (Named.insert blocks name bs)
      (Named.insert blocks' name bs') := by
  induction h with
  | nil => exact .cons ⟨rfl, hbs⟩ .nil
  | @cons e e' _ _ he hrest ih =>
      obtain ⟨key, es⟩ := e
      obtain ⟨key', es'⟩ := e'
      obtain ⟨rfl : key' = key, hes⟩ := he
      simp only [Named.insert]
      split
      · exact .cons ⟨rfl, hbs⟩ hrest
      · exact .cons ⟨rfl, hes⟩ ih

theorem addBlock (h : Context.Alike R c c') {b b' : BlockDef} (hb : b.Alike R b') :
    Context.Alike R (c.addBlock b) (c'.addBlock b') := by
  refine { h with blocks := ?_ }
  simp only [Context.addBlock, hb.name]
  exact insertBlocks h.blocks (List.rel_append (h.entries b.name) (.cons hb .nil)) _

theorem addBlocks (h : Context.Alike R c c') {bs bs' : List BlockDef}
    (hbs : List.Forall₂ (BlockDef.Alike R) bs bs') :
    Context.Alike R (bs.foldl Context.addBlock c) (bs'.foldl Context.addBlock c') := by
  induction hbs generalizing c c' with
  | nil => exact h
  | cons hb _ ih => exact ih (h.addBlock hb)

theorem ofBlocks {globals globals' bindings bindings' : Bindings} {bs bs' : List BlockDef}
    (hglobals : Bindings.Alike R globals globals') (hbindings : Bindings.Alike R bindings bindings')
    (hbs : List.Forall₂ (BlockDef.Alike R) bs bs') :
    Context.Alike R (.ofBlocks globals bindings bs) (.ofBlocks globals' bindings' bs') where
  globals := hglobals
  bindings := hbindings
  blocks := by
    have hall : ∀ {blocks blocks' : Named (List BlockDef)},
        List.Forall₂ (fun e e' : String × List BlockDef =>
          e'.1 = e.1 ∧ List.Forall₂ (BlockDef.Alike R) e.2 e'.2) blocks blocks' →
        List.Forall₂ (fun e e' : String × List BlockDef =>
          e'.1 = e.1 ∧ List.Forall₂ (BlockDef.Alike R) e.2 e'.2)
          (Named.insertAll blocks (bs.map fun b => (b.name, [b])))
          (Named.insertAll blocks' (bs'.map fun b => (b.name, [b]))) := by
      unfold Named.insertAll
      induction hbs with
      | nil => exact fun h => h
      | @cons b b' _ _ hb _ ih =>
          intro blocks blocks' h
          simp only [List.map_cons, List.foldl_cons, hb.name]
          exact ih (insertBlocks h (.cons hb .nil) _)
    exact hall .nil
  exported := rfl

theorem block (h : Context.Alike R c c') (name : String) :
    Answers Eq (BlockDef.Alike R) (c.block name) (c'.block name) := by
  unfold Context.block
  have he := h.entries name
  generalize c.entries name = es, c'.entries name = es' at he
  cases he with
  | nil => exact .error rfl
  | cons hb _ => exact .ok hb

/-- Definitions are told apart by their numbers. -/
theorem overridden (h : Context.Alike R c c') (name : String) {b b' : BlockDef}
    (hb : b.Alike R b') :
    Answers Eq (BlockDef.Alike R) (c.overridden name b) (c'.overridden name b') := by
  unfold Context.overridden
  have he := h.entries name
  generalize c.entries name = es, c'.entries name = es' at he
  have hdrop : List.Forall₂ (BlockDef.Alike R) (es.dropWhile fun d => d.number != b.number)
      (es'.dropWhile fun d => d.number != b'.number) := by
    rw [hb.number]
    induction he with
    | nil => exact .nil
    | cons hd hrest ih =>
        rw [List.dropWhile_cons, List.dropWhile_cons, hd.number]
        split
        · exact ih
        · exact .cons hd hrest
  generalize es.dropWhile _ = ds, es'.dropWhile _ = ds' at hdrop
  cases hdrop with
  | nil => exact .error rfl
  | cons _ hrest =>
      cases hrest with
      | nil => exact .error rfl
      | cons hd _ => exact .ok hd

end Context.Alike

/-! ### Laws -/

namespace Mirror

variable (M : Mirror)

/-- Frames that are alike where the two runs make them. -/
structure Frames (w : M.World) (frame frame' : Frame) : Prop where
  bindings : Bindings.Alike M.node frame.bindings frame'.bindings
  parent : Option.Rel (M.frame w) frame.parent frame'.parent
  isolated : frame'.isolated = frame.isolated
  topLevel : frame'.topLevel = frame.topLevel

/-- The same template of some, or none. -/
def Among (T : TemplateId → Prop) (id id' : Option TemplateId) : Prop :=
  id' = id ∧ ∀ template, id = some template → T template

theorem Among.all {id id' : Option TemplateId} (h : id' = id) : Among (fun _ => True) id id' :=
  ⟨h, fun _ _ => trivial⟩

/-- How frames, contexts and numbers have to be related.  Templates that are extended are among those
that the runs may have to do with. -/
structure Store (T : TemplateId → Prop := fun _ => True) : Prop where
  newFrames : ∀ {w frames frames'}, List.Forall₂ (M.Frames w) frames frames' →
    M.Acts w (Action.newFrames frames) (Action.newFrames frames') fun v => List.Forall₂ (M.frame v)
  newFrame : ∀ {w frame frame'}, M.Frames w frame frame' →
    M.Acts w (Action.newFrame frame) (Action.newFrame frame') M.frame
  setName : ∀ {w id id' v v'} (name : String) (up : Bool), M.frame w id id' →
    v.Alike M.node v' →
      M.Acts w (Action.setName id name v up) (Action.setName id' name v' up) M.Any
  lookup : ∀ {w scope scope' id id'} (name : String), Scope.Alike M.node scope scope' →
    M.frame w id id' → M.Acts w (scope.lookup id name) (scope'.lookup id' name) M.Same
  isTopLevel : ∀ {w id id'}, M.frame w id id' → M.Acts w
    (Action.read fun s => s.frames.isTopLevel id) (Action.read fun s => s.frames.isTopLevel id')
    M.Equal
  flatten : ∀ {w id id'}, M.frame w id id' → M.Acts w
    (Action.read fun s => s.frames.flatten id) (Action.read fun s => s.frames.flatten id')
    fun _ => Bindings.Alike M.node
  context : ∀ {w} (id : ContextId), M.Acts w (Action.context id) (Action.context id)
    fun _ => Context.Alike M.node
  modifyContext : ∀ {w f f'} (id : ContextId), (∀ {c c'}, Context.Alike M.node c c' →
    Context.Alike M.node (f c) (f' c')) →
      M.Acts w (Action.modifyContext id f) (Action.modifyContext id f') M.Any
  newContext : ∀ {w c c'}, Context.Alike M.node c c' →
    M.Acts w (Action.newContext c) (Action.newContext c') M.Equal
  create : ∀ {w block block'} (context : ContextId) (path : String),
    Option.Rel (BlockDef.Alike M.node) block block' →
      M.Acts w (Scope.create context path block) (Scope.create context path block')
        fun _ => Scope.Alike M.node
  extended : ∀ {w scope scope'}, Scope.Alike M.node scope scope' →
    M.Acts w scope.extended? scope'.extended? fun _ => Among T
  setExtended : ∀ {w scope scope'} (id : TemplateId), T id → Scope.Alike M.node scope scope' →
    M.Acts w (scope.setExtended id) (scope'.setExtended id) M.Any
  newNumber : ∀ {w}, M.Acts w Action.newNumber Action.newNumber M.Equal
  name : ∀ {w} (id : TemplateId), M.Acts w (Environment.template id) (Environment.template id)
    fun _ t t' => t'.name = t.name
  depth : ∀ {v s s'}, M.state v s s' → s'.depth = s.depth
  enter : ∀ {v s s'}, M.state v s s' → M.state v { s with depth := s.depth + 1 }
    { s' with depth := s'.depth + 1 }
  leave : ∀ {v s s'}, M.state v s s' → M.state v { s with depth := s.depth - 1 }
    { s' with depth := s'.depth - 1 }
  function : ∀ {w args args'} (number : Nat), CallArgs.Alike M.node args args' →
    M.Acts w (Render.callFunction number args) (Render.callFunction number args') M.Same

variable {M} in
/-- A template by name, if what caches keep and loaders find is related, and is kept alike. -/
theorem load_acts {env : Environment} {F : Source → Source → Prop} {w : M.World}
    (hcached : ∀ full, M.Acts w (Action.read (env.cached? full)) (Action.read (env.cached? full))
      M.Equal)
    (hsource : ∀ loader ∈ env.loaders, ∀ name,
      M.Acts w (loader.source name) (loader.source name) fun _ => Option.Rel F)
    (hkeep : ∀ {x x'} full, F x x' → M.Acts w (Action.change (env.keep full x))
      (Action.change (env.keep full x')) M.Equal)
    (name : String) (parent : Option String) (ignoreMissing : Bool) :
    M.Acts w (env.load name parent ignoreMissing) (env.load name parent ignoreMissing)
      fun _ => Among fun _ => True := by
  -- by induction on the loaders that were not asked yet, before each of which the cache is
  have hfrom : ∀ loaders : List Loader, (∀ loader ∈ loaders, loader ∈ env.loaders) →
      M.Acts w (env.loadFrom name parent loaders) (env.loadFrom name parent loaders) M.Equal := by
    intro loaders hmem
    induction loaders with
    | nil => exact .pure fun _ _ => rfl
    | cons loader rest ih =>
        unfold Environment.loadFrom
        refine (hcached _).bind fun v found found' hv hfound => ?_
        obtain rfl : found' = found := hfound
        cases found' with
        | some id => exact .pure fun _ _ => rfl
        | none =>
            refine ((hsource loader (hmem _ List.mem_cons_self) _).later hv).bind
              fun u source source' hu hsource => ?_
            cases hsource with
            | none => exact (ih fun l hl => hmem l (List.mem_cons_of_mem _ hl)).later (M.trans hv hu)
            | some hsource =>
                exact ((hkeep _ hsource).later (M.trans hv hu)).map
                  (fun _ _ _ _ h => congrArg some h) fun _ _ _ _ _ h => h
  refine (hfrom env.loaders fun _ h => h).bind fun _ found found' _ hfound => ?_
  obtain rfl : found' = found := hfound
  cases found' with
  | some id => exact .pure fun _ _ => .all rfl
  | none =>
      dsimp only
      split
      · exact .pure fun _ _ => .all rfl
      · exact .fail _

variable {M} in
/-- A template as a tree, if templates and numbers are read alike, and what templates are compiled to is
related and kept alike. -/
theorem compile_acts {env env' : Environment} {F : Template → Template → Prop} {w : M.World}
    (id : TemplateId)
    (htemplate : M.Acts w (Environment.template id) (Environment.template id) fun _ => F)
    (hcompiled : ∀ {t t'}, F t t' → Option.Rel (Compiled.Alike M.node) t.compiled t'.compiled)
    (hnumber : M.Acts w (Action.read State.next) (Action.read State.next) M.Equal)
    (hbuild : ∀ {t t'} number, F t t' → t'.name = t.name ∧ Answers M.error (Compiled.Alike M.node)
      (Template.build env.config (env.extensions.map Extension.toTagReader) env.asyncFilters t.name
        t.source number)
      (Template.build env'.config (env'.extensions.map Extension.toTagReader) env'.asyncFilters t'.name
        t'.source number))
    (hkeep : ∀ {c c'} number, Compiled.Alike M.node c c' → M.Acts w
      (Action.change fun s => (c, { s with
        next := number + c.blocks.length
        templates := s.templates.modify id fun t => { t with compiled := some c } }))
      (Action.change fun s => (c', { s with
        next := number + c'.blocks.length
        templates := s.templates.modify id fun t => { t with compiled := some c' } }))
      fun _ => Compiled.Alike M.node) :
    M.Acts w (env.compile id) (env'.compile id) fun _ => Compiled.Alike M.node := by
  refine htemplate.bind fun v t t' hv ht => ?_
  have hc := hcompiled ht
  generalize t.compiled = c, t'.compiled = c' at hc
  cases hc with
  | some hc => exact .pure fun _ _ => hc
  | none =>
      refine (hnumber.later hv).bind fun u number number' hu hnumber => ?_
      obtain rfl : number' = number := hnumber
      obtain ⟨hname, hbuild⟩ := hbuild number' ht
      rw [hname] at hbuild ⊢
      refine Mirror.Acts.bind (Q := fun _ => Compiled.Alike M.node)
        (.throughTemplate (.ofExcept fun _ _ => hbuild) _) fun _ c c' hu' hc => ?_
      exact (hkeep number' hc).later (M.trans (M.trans hv hu) hu')

/-- What has to hold of what was registered for the two runs. -/
structure Serves (env env' : Environment) (T : TemplateId → Prop := fun _ => True) : Prop
    extends Store M T where
  compile : ∀ {w} (id : TemplateId), T id → M.Acts w (env.compile id) (env'.compile id)
    fun _ => Compiled.Alike M.node
  load : ∀ {w} (name : String) (parent : Option String) (ignoreMissing : Bool),
    M.Acts w (env.load name parent ignoreMissing) (env'.load name parent ignoreMissing)
      fun _ => Among T
  globals : Bindings.Alike M.node env.globals env'.globals
  autoescape : env'.config.autoescape = env.config.autoescape
  written : ∀ {w v v'}, v.Alike M.node v' → M.Acts w (Action.ofExcept (written env.config v))
    (Action.ofExcept (written env'.config v')) M.Equal
  filter : ∀ name, Option.Rel (fun f f' : Filter => ∀ {w v v' args args'}, v.Alike M.node v' →
    List.Forall₂ (Value.Alike M.node) args args' →
      M.Acts w (f.apply v args) (f'.apply v' args') M.Same)
    (env.filters.lookup name) (env'.filters.lookup name)
  test : ∀ name, Option.Rel (fun t t' : Test => ∀ {v v' args args'}, v.Alike M.node v' →
    List.Forall₂ (Value.Alike M.node) args args' → Answers M.error (fun b b' => b' = b) (t v args) (t' v' args'))
    (env.tests.lookup name) (env'.tests.lookup name)
  tag : ∀ name, Option.Rel (fun x x' : Extension => ∀ {w args args' content content'}
    (context : ContextId) (method : String), CallArgs.Alike M.node args args' →
    List.Forall₂ (fun body body' => M.Acts w body body' M.Equal) content content' →
      M.Acts w (x.run context method args content) (x'.run context method args' content') M.Same)
    (env.extension? name) (env'.extension? name)

/-- What has to hold of what was registered for the two runs, and of iterations that run at once. -/
structure Keeps (env env' : Environment) (T : TemplateId → Prop := fun _ => True) : Prop
    extends Serves M env env' T where
  /-- Such iterations give related results, if trees with such loops are related. -/
  join : ∀ {p p' a b c d a' b' c' d'},
    M.node (.loop p .all a b c d) (.loop p' .all a' b' c' d') →
    ∀ {w} {xs xs' : List (Action String)}, List.Forall₂ (fun x x' => M.Acts w x x' M.Equal) xs xs' →
      M.Acts w (Action.join xs) (Action.join xs') M.Equal

end Mirror

/-- Two evaluators that give related results on related trees. -/
structure Evaluator.Mirrored (M : Mirror) (ev ev' : Evaluator)
    (T : TemplateId → Prop := fun _ => True) : Prop where
  exec : ∀ {w scope scope' n n' id id'}, Scope.Alike M.node scope scope' → M.node n n' →
    M.frame w id id' → M.Acts w (ev.exec scope n id) (ev'.exec scope' n' id') M.Equal
  eval : ∀ {w scope scope' n n' id id'}, Scope.Alike M.node scope scope' → M.node n n' →
    M.frame w id id' → M.Acts w (ev.eval scope n id) (ev'.eval scope' n' id') M.Same
  root : ∀ {w id id'} (template : TemplateId) (context : ContextId) (lineage : List String),
    T template → M.frame w id id' → M.Acts w (ev.root template context id lineage)
      (ev'.root template context id' lineage) M.Equal

end Stencil
