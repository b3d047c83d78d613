/-
**Whole runs keep policies.**

What the statements and expressions of a template keep is kept however deep they nest, and so by a
whole run.

Main definitions:

* `Stencil.Evaluator.run` — a template with an evaluator, in a frame of its own.

Main results:

* `Stencil.Evaluator.Follows.step` — one more level of nesting;
* `Stencil.Evaluator.Follows.finish` — what is known of a run in the end;
* `Stencil.Evaluator.Follows.renderWith` — what is known of rendering in the end.
-/

import Stencil.Proofs.Evaluation.Statements

set_option autoImplicit false

namespace Stencil

open Policy

variable {π : Policy} {σ : Sites} {env : Environment} {ev ev' : Evaluator}

/-! ### Templates that extend others -/

/-- The output of a template of a name, whatever its tree is, and then of those that it extends. -/
def Render.rootOf (ev : Evaluator) (name : String) (tree : Action Compiled) (context : ContextId)
    (frame : FrameId) (lineage : List String) : Action String := do
  let scope ← Scope.create context name none
  let out ← Action.throughTemplate name do
    let compiled ← tree
    ev.exec scope compiled.root frame
  match ← scope.extended? with
  | none => return out
  | some parent =>
    let parentName := (← Environment.template parent).name
    if (lineage ++ [name]).contains parentName then
      Action.throughTemplate name
        (Action.fail (.cyclicInheritance (lineage ++ [name] ++ [parentName])))
    else ev.root parent context frame (lineage ++ [name])

theorem Render.root_eq (id : TemplateId) (context : ContextId) (frame : FrameId)
    (lineage : List String) (s : State) :
    Render.root env ev id context frame lineage s =
      rootOf ev ((s.templates[id]?).getD default).name (env.compile id) context frame lineage s :=
  rfl

/-- A number that no template has stands for a template without a name, which is empty. -/
theorem Render.rootOf_blank (hπ : π.Basic env) {id : TemplateId} (context : ContextId)
    (frame : FrameId) (lineage : List String) {s : State} (h : s.templates[id]? = none) :
    rootOf ev "" (env.compile id) context frame lineage s =
      rootOf ev "" (Pure.pure Compiled.blank) context frame lineage s := by
  -- a scope is made before the tree is read, which keeps the templates
  have hcreate : ∀ {α : Type} (f g : Scope → Action α) (s : State),
      (∀ scope s', s'.templates = s.templates → f scope s' = g scope s') →
        (Scope.create context "" none >>= f) s = (Scope.create context "" none >>= g) s :=
    fun f g s hfg => hfg _ _ rfl
  refine hcreate _ _ s fun scope s' hs' => ?_
  have htree : env.compile id s' = (Pure.pure Compiled.blank : Action Compiled) s' :=
    hπ.compile_blank (hs' ▸ h)
  simp only [bind, Action.throughTemplate, htree]

theorem Render.rootOf_follows (hπ : π.Lawful σ env) (hb : π.Inherits σ)
    (hev : Evaluator.Follows π σ ev ev') {pre : World → Prop} {name : String}
    {tree : Action Compiled} {context : ContextId} {frame : FrameId} {lineage : List String}
    (hroot : ∀ w, pre w → σ.root context frame w)
    (htree : π.Triple pre tree tree fun c _ => π.Ready name c) :
    π.Triple pre (rootOf ev name tree context frame lineage)
      (rootOf ev' name tree context frame lineage) fun text _ => π.text text := by
  have hread : ∀ {α : Type} {pre : World → Prop} {f : State → α},
      π.Triple pre (Action.read f) (Action.read f) fun _ _ => True :=
    Triple.read fun _ _ _ _ => .of_forall fun _ => trivial
  unfold rootOf
  refine (Triple.create context name none).bind fun scope => ?_
  refine Triple.bind (m := fun text _ => π.text text) (Triple.throughTemplate ?_ name)
    fun out => ?_
  · refine (htree.of_pre fun w hw => hw.1).bind fun compiled => ?_
    refine (hev.exec scope compiled.root frame).of_pre ?_
    rintro w ⟨⟨hw, hcontext, hpath, hblock, hmay, _⟩, hready⟩
    exact hb.tree (hroot w hw) (hpath ▸ hready) hcontext hblock hmay
  · refine Triple.bind hread fun parent => ?_
    cases parent with
    | none => exact Triple.pure fun w hw => hw.1.2
    | some parent =>
        refine Triple.bind hread fun u => ?_
        dsimp only
        split
        · exact (Triple.fail fun _ _ => hπ.tolerant _ rfl).throughTemplate _
        · exact (hev.root parent context frame _).of_pre fun w hw => hroot w hw.1.1.1.1

/-- A template, and then the templates that it extends. -/
theorem Render.root_follows (hπ : π.Lawful σ env) (hb : π.Inherits σ)
    (hev : Evaluator.Follows π σ ev ev') {id : TemplateId} {context : ContextId} {frame : FrameId}
    {lineage : List String} :
    π.Triple (σ.root context frame) (Render.root env ev id context frame lineage)
      (Render.root env ev' id context frame lineage) fun text _ => π.text text := by
  have hnamed : ∀ name, π.Triple
      (fun w => σ.root context frame w ∧ w.state.Names id name)
      (rootOf ev name (env.compile id) context frame lineage)
      (rootOf ev' name (env.compile id) context frame lineage) fun text _ => π.text text :=
    fun name => rootOf_follows hπ hb hev (fun _ hw => hw.1)
      ((hπ.compile_named id name).of_pre fun _ hw => hw.2)
  have hblank : π.Triple (σ.root context frame)
      (rootOf ev "" (Pure.pure Compiled.blank) context frame lineage)
      (rootOf ev' "" (Pure.pure Compiled.blank) context frame lineage) fun text _ => π.text text :=
    rootOf_follows hπ hb hev (fun _ hw => hw) (Triple.pure fun _ _ => hπ.ready_blank)
  refine ⟨fun s => ?_, fun w hl hs hw => ?_⟩
  · rw [root_eq]
    exact (hnamed _).climbs s
  · rw [root_eq, root_eq]
    cases ht : w.state.templates[id]? with
    | none =>
        rw [Option.getD_none]
        change π.Follows _ w (rootOf ev "" _ _ _ _ w.state) (rootOf ev' "" _ _ _ _ w.state)
        rw [rootOf_blank hπ.toBasic context frame lineage ht,
          rootOf_blank hπ.toBasic context frame lineage ht]
        exact hblank.2 w hl hs hw
    | some t =>
        have hnames : w.state.Names id t.name := ⟨t, ht, rfl⟩
        exact (hnamed t.name).2 w hl hs (hw.and fun w' hw' => hnames.of_grows hw'.grows)

namespace Evaluator.Follows

/-- An evaluator that runs nothing. -/
theorem exhausted (hπ : π.Lawful σ env) : Follows π σ .exhausted .exhausted where
  exec _ _ _ := Triple.fail fun _ _ => hπ.tolerant _ rfl
  eval _ _ _ := Triple.fail fun _ _ => hπ.tolerant _ rfl
  root _ _ _ _ := Triple.fail fun _ _ => hπ.tolerant _ rfl

/-- One more level of nesting. -/
theorem step (hπ : π.Lawful σ env) (hb : π.Inherits σ) (hev : Follows π σ ev ev') :
    Follows π σ (ev.step env) (ev'.step env) where
  exec scope n frame := by
    refine Triple.located ?_ n.position
    cases hn : n.inherits with
    | false => exact Render.execute_follows hπ hev hn
    | true => exact Render.inheritance_follows hπ hb hev hn
  eval scope n frame := (Render.evaluate_follows hπ hev n).located n.position
  root _ _ _ _ := Render.root_follows hπ hb hev

/-- An evaluator follows itself, however deep it may nest. -/
theorem tied (hπ : π.Lawful σ env) (hb : π.Inherits σ) (depth : Nat) :
    Follows π σ (.tied env depth) (.tied env depth) := by
  induction depth with
  | zero => exact exhausted hπ
  | succ depth ih => exact ih.step hπ hb

end Evaluator.Follows

/-! ### Runs -/

/-- A template with an evaluator, in a frame of its own. -/
def Evaluator.run (env : Environment) (ev : Evaluator) (id : TemplateId) (bindings : Bindings) :
    Action String := do
  let frame ← Action.newFrame Frames.root
  return (← Render.template env ev id bindings frame).1

/-- What can be rendered: a template by its number or its name, or a source. -/
inductive Environment.Entry where
  | template (id : TemplateId)
  | named (name : String)
  | source (text : String)

/-- An answer can be told by its text, so that it can be computed. -/
theorem Poll.eq_of_toOption {α : Type} {r : Option (Except TemplateError α) × State} {a : α}
    (h : r.1.bind Except.toOption = some a) : r = (some (.ok a), r.2) := by
  obtain ⟨answer, s⟩ := r
  obtain ⟨answer, rfl, hok⟩ := Option.bind_eq_some_iff.1 h
  cases answer with
  | ok b =>
      obtain rfl : b = a := Option.some.inj hok
      rfl
  | error e => cases hok

/-- So can an error. -/
theorem Poll.eq_of_error {α : Type} {r : Option (Except TemplateError α) × State}
    {e : TemplateError} (h : r.1.map (Except.map fun _ => ()) = some (.error e)) :
    r = (some (.error e), r.2) := by
  obtain ⟨answer, s⟩ := r
  obtain ⟨answer, rfl, herror⟩ := Option.map_eq_some_iff.1 h
  cases answer with
  | ok a => cases herror
  | error e' =>
      cases herror
      rfl

/-- The number of the template to render. -/
def Environment.enter (env : Environment) : Entry → Action TemplateId
  | .template id => pure id
  | .named name => env.loadRequired name none
  | .source text => Action.change (newTemplate "<string>" text)

/-- What templates are loaded depends on the loaders and the cache alone. -/
theorem Environment.load_congr {env env' : Environment} (hloaders : env'.loaders = env.loaders)
    (hcache : env'.cache = env.cache) (name : String) (parent : Option String)
    (ignoreMissing : Bool) :
    env'.load name parent ignoreMissing = env.load name parent ignoreMissing := by
  have hfrom : ∀ loaders, env'.loadFrom name parent loaders = env.loadFrom name parent loaders := by
    intro loaders
    induction loaders with
    | nil => rfl
    | cons loader rest ih =>
        unfold loadFrom keep cached?
        rw [ih, hcache]
  unfold load
  rw [hloaders, hfrom]

/-- And so does what is rendered. -/
theorem Environment.enter_congr {env env' : Environment} (hloaders : env'.loaders = env.loaders)
    (hcache : env'.cache = env.cache) (entry : Entry) : env'.enter entry = env.enter entry := by
  cases entry with
  | named name => simp only [enter, loadRequired, load_congr hloaders hcache]
  | template | source => rfl

/-- The output of a template with data, which an evaluator runs. -/
def Environment.runData (env : Environment) (ev : Evaluator) (data : Value) (id : TemplateId) :
    Action String := do
  let bindings ← Action.ofExcept (dataBindings data)
  Action.modify startRun
  ev.run env id bindings

/-- The output of what is to be rendered with data, which an evaluator runs. -/
def Environment.renderWith (env : Environment) (ev : Evaluator) (entry : Entry) (data : Value) :
    Action String := do
  env.runData ev data (← env.enter entry)

/-- The output of what is to be rendered with data, in a run that may nest so deep. -/
def Environment.renderEntry (env : Environment) (depth : Nat) (entry : Entry) (data : Value) :
    Action String := do
  env.renderWithin depth (← env.enter entry) data

/-- Rendering is running what is rendered with an evaluator that nests so deep. -/
theorem Environment.renderEntry_eq_renderWith (depth : Nat) (entry : Entry) (data : Value) :
    env.renderEntry depth entry data = env.renderWith (.tied env depth) entry data := rfl

/-- The entry points render what they are given. -/
theorem Environment.renderEntry_eq (name source : String) (id : TemplateId) (data : Value) :
    env.renderEntry nestingLimit (.template id) data = env.renderTemplate id data ∧
      env.renderEntry nestingLimit (.named name) data = env.renderNamed name data ∧
        env.renderEntry nestingLimit (.source source) data = env.renderSource source data :=
  ⟨rfl, rfl, rfl⟩

/-- The names that admitted data bind. -/
theorem Environment.dataBindings_admitted {data : Value} {bindings : Bindings}
    (hdata : data.Admitted π) (h : dataBindings data = .ok bindings) :
    Bindings.Admitted π bindings := by
  unfold dataBindings at h
  split at h
  · cases h
    exact hdata.members
  · cases h
    exact .nil
  · cases h
    exact .nil
  · cases h

/-- Data that binds no names is an ordinary error. -/
theorem Environment.dataBindings_ordinary {data : Value} {e : TemplateError}
    (h : dataBindings data = .error e) : e.cause.isOrdinary = true := by
  unfold dataBindings at h
  split at h
  · cases h
  · cases h
  · cases h
  · cases h
    rfl

/-- A policy that watches for nothing but how templates were compiled. -/
def Policy.lax (π : Policy) : Policy where
  text _ := True
  declared _ := True
  block _ := True
  loaded _ _ := True
  built := π.built
  cause := π.cause
  stray _ := False

theorem Policy.Basic.lax (hπ : π.Basic env) : π.lax.Basic env where
  tolerant := hπ.tolerant
  extensions := hπ.extensions
  globals _ _ := .of_all (fun _ => trivial) (fun _ => trivial) _
  test := hπ.test
  loader := hπ.loader
  text_empty := trivial
  text_append _ _ _ _ := trivial
  written _ _ := trivial
  built := hπ.built
  unreadable := hπ.unreadable
  blank := trivial
  blocks _ _ _ := trivial

/-- Finding what to render. -/
theorem Policy.Basic.enter (hπ : π.Basic env) (entry : Environment.Entry) {pre : World → Prop} :
    π.Triple pre (env.enter entry) (env.enter entry) fun _ _ => True := by
  cases entry with
  | template id => exact Triple.pure fun _ _ => trivial
  | named name => exact hπ.loadRequired name none
  | source text =>
      have hgrows : ∀ s : State, s.Grows (Environment.newTemplate "<string>" text s).2 := fun s =>
        .setTemplates s (.push Template.SameSource.refl _ _) (Nat.le_refl _)
      refine Triple.change hgrows fun w _ hs _ => ⟨?_, w.move _ (hgrows w.state), ?_, rfl,
        .of_forall fun _ => trivial⟩
      · refine { hs with templates := fun t ht c hc => ?_ }
        rcases Array.mem_push.1 ht with ht | rfl
        · exact hs.templates t ht c hc
        · cases hc
      · exact World.step_move _ fun p _ _ => by cases p <;> rfl

/-- A state between renderings: templates were compiled as they should be, and the functions of the
host answer as they may. -/
structure Policy.Initial (π : Policy) (s : State) : Prop where
  templates : ∀ t ∈ s.templates, ∀ c, t.compiled = some c → π.built t.name t.source c
  answers : ∀ f ∈ s.functions, ∀ args v, f args = .ok v → args.Admitted π → v.Admitted π
  failures : ∀ f ∈ s.functions, ∀ args e, f args = .error e → π.cause e.cause

namespace Policy.Initial

variable {s : State}

/-- Where nothing is watched for, what was left over is admitted. -/
theorem lax (h : π.Initial s) : π.lax.Sound s where
  frames _ _ _ _ := .of_all (fun _ => trivial) (fun _ => trivial) _
  globals _ _ _ _ := .of_all (fun _ => trivial) (fun _ => trivial) _
  bindings _ _ _ _ := .of_all (fun _ => trivial) (fun _ => trivial) _
  blocks _ _ _ _ _ _ := trivial
  templates := h.templates
  functions f hf args _ _ := by
    cases hanswer : f args with
    | ok v => exact .of_all (fun _ => trivial) (fun _ => trivial) v
    | error e => exact h.failures f hf args e hanswer

/-- A state in which a rendering starts holds only templates and functions. -/
theorem startRun (h : π.Initial s) : π.Sound (Environment.startRun s) where
  frames _ h := by simp [Environment.startRun] at h
  globals _ h := by simp [Environment.startRun] at h
  bindings _ h := by simp [Environment.startRun] at h
  blocks _ h := by simp [Environment.startRun] at h
  templates := h.templates
  functions f hf args hpositional hkeywords := by
    cases hanswer : f args with
    | ok v => exact h.answers f hf args v hanswer ⟨hpositional, hkeywords⟩
    | error e => exact h.failures f hf args e hanswer

end Policy.Initial

/-! ### What is known in the end -/

/-- Where a rendering starts, nothing may be written yet. -/
def World.start (s : State) : World where
  state := s
  may := ∅
  mine := ∅
  may_exists _ h := h.elim
  mine_exists _ h := h.elim

/-- A reference, polled so often, gave up or gave the same result, with which the policy is kept. -/
def Policy.Agrees (π : Policy) (q : Poll String) (n : Nat)
    (r : Option (Except TemplateError String)) (s : State) : Prop :=
  (∃ e t, π.stray e.cause ∧ q.finish n = (some (.error e), t)) ∨
    (q.finish n = (r, s) ∧ (∀ text, r = some (.ok text) → π.text text) ∧
      ∀ e, r = some (.error e) → π.cause e.cause)

/-- Where a template may be rendered as a whole. -/
def Sites.Starts (σ : Sites) : Prop := ∀ context frame w, w.MadeContext context →
  w.Made (fun _ => False) frame Frames.root → σ.root context frame w

namespace Evaluator.Follows

/-- What is known of a run in the end. -/
theorem run (hπ : π.Lawful σ env) (hev : Follows π σ ev ev') (hroot : σ.Starts)
    {id : TemplateId} {bindings : Bindings} (hbindings : Bindings.Admitted π bindings) {n : Nat}
    {s s' : State} {r : Option (Except TemplateError String)} (hsound : π.Sound s)
    (hfinish : ((ev.run env id bindings) s).finish n = (r, s')) (hloaded : π.Loaded s') :
    π.Agrees ((ev'.run env id bindings) s) n r s' := by
  have hrun : π.Triple (fun _ => True) (ev.run env id bindings) (ev'.run env id bindings)
      fun text _ => π.text text := by
    unfold Evaluator.run
    refine (Triple.newFrame fun _ _ => .nil).bind fun frame => ?_
    refine (Render.template_follows hπ hev (fun _ _ => hbindings) fun context w hw hcontext =>
      hroot context frame w hcontext hw.2).bind fun r => ?_
    exact Triple.pure fun w hw => hw.2
  have hfollows := hrun.follows (w := World.start s) (fun _ => hsound) (.of_forall fun _ => trivial)
  rcases hfollows.finish (hrun.climbs s) hfinish hloaded with h | ⟨hrun', hs, hanswer⟩
  · exact .inl h
  · refine .inr ⟨hrun', fun text htext => ?_, fun e he => ?_⟩
    · obtain ⟨w', _, hout⟩ := hanswer _ htext
      exact hout.now
    · obtain ⟨w', _, hout⟩ := hanswer _ he
      exact hout

/-- What is known of a run with data in the end. -/
theorem runData (hπ : π.Lawful σ env) (hev : Follows π σ ev ev') (hroot : σ.Starts)
    {data : Value} (hdata : data.Admitted π) {id : TemplateId} {n : Nat} {s s' : State}
    {r : Option (Except TemplateError String)} (hinitial : π.Initial s)
    (hfinish : (env.runData ev data id s).finish n = (r, s')) (hloaded : π.Loaded s') :
    π.Agrees (env.runData ev' data id s) n r s' := by
  have hsteps : ∀ ev : Evaluator, env.runData ev data id s =
      (Action.ofExcept (Environment.dataBindings data) s).bind fun bindings s =>
        ev.run env id bindings (Environment.startRun s) := fun _ => rfl
  rw [hsteps] at hfinish ⊢
  cases hbindings : Environment.dataBindings data with
  | ok bindings =>
      rw [hbindings] at hfinish
      exact hev.run hπ hroot (Environment.dataBindings_admitted hdata hbindings) hinitial.startRun
        hfinish hloaded
  | error e =>
      rw [hbindings] at hfinish
      have hr : some (.error e) = r := by
        cases n <;> exact congrArg Prod.fst hfinish
      refine .inr ⟨hfinish, fun text htext => ?_, fun e' he' => ?_⟩
      · cases hr.trans htext
      · cases hr.trans he'
        exact hπ.tolerant _ (Environment.dataBindings_ordinary hbindings)

end Evaluator.Follows

/-- What is known of rendering in the end. -/
theorem Evaluator.Follows.renderWith (hπ : π.Lawful σ env) (hev : Follows π σ ev ev')
    (hroot : σ.Starts) {entry : Environment.Entry} {data : Value} (hdata : data.Admitted π)
    {n : Nat} {s s' : State} {r : Option (Except TemplateError String)} (hinitial : π.Initial s)
    (hfinish : ((env.renderWith ev entry data) s).finish n = (r, s')) (hloaded : π.Loaded s') :
    π.Agrees ((env.renderWith ev' entry data) s) n r s' := by
  have henter : π.lax.Triple (fun _ => True) (env.enter entry) (env.enter entry) fun _ _ => True :=
    hπ.toBasic.lax.enter entry
  have hfound := henter.follows (w := World.start s) (fun _ => hinitial.lax)
    (.of_forall fun _ => trivial)
  rcases Poll.finish_bind (β := String) (env.enter entry s) n with
    ⟨m, id, t, hp, hrest⟩ | ⟨answer, t, hp, hrest⟩
  · -- there is something to render
    have hinitial' : π.Initial t := by
      have hgrows := (henter.climbs s).finish m
      rw [hp] at hgrows
      refine ⟨?_, fun f hf => hinitial.answers f (hgrows.functions ▸ hf),
        fun f hf => hinitial.failures f (hgrows.functions ▸ hf)⟩
      rcases hfound.finish (henter.climbs s) hp (fun _ _ _ _ => trivial) with
        ⟨_, _, h, _⟩ | ⟨_, hs, _⟩
      · exact h.elim
      · exact hs.templates
    have hsteps : ∀ ev : Evaluator, ((env.renderWith ev entry data) s).finish n =
        (env.runData ev data id t).finish (n - m) := fun ev => hrest (env.runData ev data)
    rw [hsteps] at hfinish
    rcases hev.runData hπ hroot hdata hinitial' hfinish hloaded with h | h
    · exact .inl (by simpa only [hsteps] using h)
    · exact .inr (by simpa only [hsteps] using h)
  · -- there is nothing to render
    have hnone : ∀ ev : Evaluator, ((env.renderWith ev entry data) s).finish n =
        (Option.map Except.error answer, t) := fun ev => hrest (env.runData ev data)
    obtain ⟨rfl, rfl⟩ : Option.map Except.error answer = r ∧ t = s' :=
      Prod.mk.inj ((hnone ev).symm.trans hfinish)
    refine .inr ⟨hnone ev', fun text htext => ?_, fun e he => ?_⟩
    · cases answer <;> cases htext
    · obtain rfl : answer = some e := by
        cases answer with
        | none => cases he
        | some e' => cases he; rfl
      rcases hfound.finish (henter.climbs s) hp (fun _ _ _ _ => trivial) with
        ⟨_, _, h, _⟩ | ⟨_, _, hanswer⟩
      · exact h.elim
      · obtain ⟨w', _, hout⟩ := hanswer _ rfl
        exact hout

end Stencil
