/-
**Environments render with their own registrations.**

A host makes environments, copies them, registers in them, and loads, compiles and renders templates
through them, in any order.  The templates in the cache of an environment, as far as they are compiled,
were compiled with what is registered in the environment, since each registration starts a new cache.
There is one exception: a template that a host holds can be compiled through any environment, and keeps
the tree that it got there.  So a host should do this only through environments that make the same tree.

Main definitions:

* `Stencil.Registration` — what can be registered;
* `Stencil.Session` — the environments of a host and the state they share;
* `Stencil.Session.Step`, `Stencil.Session.Reachable` — what a host does, and what it comes to;
* `Stencil.Session.Suits` — whether a template may be compiled through an environment.

Main results:

* `Stencil.Session.Sound.step` — each operation keeps the caches in order;
* `Stencil.Session.Reachable.renderEntry_anew` — **rendering by name is rendering with trees made
  anew** with what is registered in the environment.
-/

import Stencil.Proofs.Session.Moves

set_option autoImplicit false

namespace Stencil

/-! ### Hosts -/

/-- What can be registered in an environment. -/
inductive Registration where
  | loader (loader : Loader)
  | filter (name : String) (f : Value → List Value → Immediate Value)
  | asyncFilter (name : String) (f : Value → List Value → Action Value)
  | test (name : String) (test : Test)
  | global (name : String) (v : Value)
  | extension (extension : Extension)

namespace Registration

/-- The environment in which something is registered. -/
def apply (env : Environment) (s : State) : Registration → Environment × State
  | .loader l => env.addLoader l s
  | .filter name f => env.addFilter name f s
  | .asyncFilter name f => env.addAsyncFilter name f s
  | .test name t => env.addTest name t s
  | .global name v => env.addGlobal name v s
  | .extension x => env.addExtension x s

/-- What is registered leaves templates and caches alone. -/
def Discreet : Registration → Prop
  | .loader l => ∀ name, (l.source name).Aside
  | .asyncFilter _ f => ∀ v args, (f v args).Aside
  | .extension x => x.Discreet
  | _ => True

end Registration

/-- The environments of a host, and the state that they share. -/
structure Session where
  environments : List Environment
  state : State

namespace Session

/-- A template that is not compiled yet may be compiled through an environment, if all environments
that keep it would make the same tree of it. -/
def Suits (σ : Session) (env : Environment) (id : TemplateId) : Prop :=
  σ.state.Compiled id ∨
    ∀ other ∈ σ.environments, ∀ e ∈ σ.state.cached other.cache, e.2 = id → env.SameShape other

/-- One operation of a host, which may compile only some templates that it holds through an environment.
What may wait is polled some times. -/
inductive Step (may : Session → Environment → TemplateId → Prop) : Session → Session → Prop
  | create (σ : Session) :
    Step may σ ⟨σ.environments ++ [(Environment.create σ.state).1], (Environment.create σ.state).2⟩
  | ofConfig {σ : Session} {config : Config} {env : Environment} {s : State}
    (h : Environment.ofConfig config σ.state = .ok (env, s)) :
    Step may σ ⟨σ.environments ++ [env], s⟩
  | copy {σ : Session} {env : Environment} (h : env ∈ σ.environments) :
    Step may σ ⟨σ.environments ++ [env], σ.state⟩
  | drop (σ : Session) (i : Nat) : Step may σ ⟨σ.environments.eraseIdx i, σ.state⟩
  | register {σ : Session} {i : Nat} {env : Environment} (h : σ.environments[i]? = some env)
    (r : Registration) (hr : r.Discreet) :
    Step may σ ⟨σ.environments.set i (r.apply env σ.state).1, (r.apply env σ.state).2⟩
  | invalidate {σ : Session} {env : Environment} (h : env ∈ σ.environments) :
    Step may σ ⟨σ.environments, env.invalidateCache σ.state⟩
  | other {σ : Session} {s : State} (h : σ.state.SameTemplates s) : Step may σ ⟨σ.environments, s⟩
  | newTemplate (σ : Session) (name source : String) :
    Step may σ ⟨σ.environments, (Environment.newTemplate name source σ.state).2⟩
  | load {σ : Session} {env : Environment} (h : env ∈ σ.environments) (name : String)
    (parent : Option String) (ignoreMissing : Bool) (n : Nat) :
    Step may σ ⟨σ.environments, ((env.load name parent ignoreMissing σ.state).finish n).2⟩
  | compile {σ : Session} {env : Environment} (h : env ∈ σ.environments) {id : TemplateId}
    (hid : may σ env id) (n : Nat) :
    Step may σ ⟨σ.environments, ((env.compile id σ.state).finish n).2⟩
  | render {σ : Session} {env : Environment} (h : env ∈ σ.environments) (depth : Nat)
    {entry : Environment.Entry} (hentry : ∀ id, entry = .template id → may σ env id) (data : Value)
    (n : Nat) : Step may σ ⟨σ.environments, ((env.renderEntry depth entry data σ.state).finish n).2⟩

/-- What the operations of a host can come to. -/
inductive Reachable (may : Session → Environment → TemplateId → Prop) : Session → Prop
  | initial : Reachable may ⟨[], .initial⟩
  | step {σ σ' : Session} (h : Reachable may σ) (hstep : Step may σ σ') : Reachable may σ'

/-! ### Caches in order -/

/-- Environments that share a cache make the same trees, each template is in one cache at most, and
what an environment keeps it has compiled itself, if it is compiled. -/
structure Sound (σ : Session) : Prop where
  discreet : ∀ env ∈ σ.environments, env.Discreet
  counted : ∀ env ∈ σ.environments, env.cache < σ.state.caches.size
  sameShape : ∀ env ∈ σ.environments, ∀ other ∈ σ.environments, other.cache = env.cache →
    env.SameShape other
  known : ∀ cache, ∀ e ∈ σ.state.cached cache, e.2 < σ.state.templates.size
  apart : ∀ cache other, ∀ e ∈ σ.state.cached cache, ∀ e' ∈ σ.state.cached other, e.2 = e'.2 →
    cache = other
  owns : ∀ env ∈ σ.environments, ∀ e ∈ σ.state.cached env.cache, env.Owns σ.state e.2

variable {σ : Session} {env : Environment} {s : State}

namespace Sound

theorem initial : Sound ⟨[], .initial⟩ where
  discreet _ h := nomatch h
  counted _ h := nomatch h
  sameShape _ h := nomatch h
  known cache e he := by simp [State.cached, State.initial] at he
  apart cache other e he := by simp [State.cached, State.initial] at he
  owns _ h := nomatch h

/-- Some environments are there no more, or twice. -/
theorem sublist (h : σ.Sound) {environments : List Environment}
    (hsub : ∀ env ∈ environments, env ∈ σ.environments) : Sound ⟨environments, σ.state⟩ where
  discreet env henv := h.discreet env (hsub env henv)
  counted env henv := h.counted env (hsub env henv)
  sameShape env henv other hother := h.sameShape env (hsub env henv) other (hsub other hother)
  known := h.known
  apart := h.apart
  owns env henv := h.owns env (hsub env henv)

/-- Caches may lose entries. -/
theorem shrink (h : σ.Sound) (htemplates : s.templates = σ.state.templates)
    (hcount : σ.state.caches.size ≤ s.caches.size)
    (hcached : ∀ cache, ∀ e ∈ s.cached cache, e ∈ σ.state.cached cache) :
    Sound ⟨σ.environments, s⟩ where
  discreet := h.discreet
  counted env henv := Nat.lt_of_lt_of_le (h.counted env henv) hcount
  sameShape := h.sameShape
  known cache e he := by
    change e.2 < s.templates.size
    rw [htemplates]
    exact h.known cache e (hcached cache e he)
  apart cache other e he e' he' := h.apart cache other e (hcached cache e he) e' (hcached other e' he')
  owns env henv e he := by
    have howns := h.owns env henv e (hcached env.cache e he)
    intro t c ht
    change s.templates[e.2]? = some t at ht
    rw [htemplates] at ht
    exact howns t c ht

/-- An environment with a cache of its own, which is empty. -/
theorem extend (h : σ.Sound) (henv : env.Discreet) (htemplates : s.templates = σ.state.templates)
    (hcount : σ.state.caches.size ≤ env.cache) (hcache : env.cache < s.caches.size)
    (hcached : ∀ cache, s.cached cache = σ.state.cached cache) {environments : List Environment}
    (hsub : ∀ other ∈ environments, other = env ∨ other ∈ σ.environments) :
    Sound ⟨environments, s⟩ := by
  -- the cache of the environment is one that was not there before
  have hempty : s.cached env.cache = [] := by
    rw [hcached, State.cached, Array.getElem?_eq_none hcount]
    rfl
  have hsound := h.shrink (s := s) htemplates (by omega) fun cache e he => hcached cache ▸ he
  have hnew : ∀ other ∈ σ.environments, other.cache ≠ env.cache := fun other hother => by
    have := h.counted other hother
    omega
  refine ⟨fun other hother => ?_, fun other hother => ?_, fun a ha b hb hab => ?_, hsound.known,
    hsound.apart, fun other hother => ?_⟩
  · rcases hsub other hother with rfl | hother
    · exact henv
    · exact h.discreet other hother
  · rcases hsub other hother with rfl | hother
    · exact hcache
    · exact hsound.counted other hother
  · rcases hsub a ha with rfl | ha <;> rcases hsub b hb with rfl | hb
    · exact .refl _
    · exact absurd hab (hnew b hb)
    · exact absurd hab.symm (hnew a ha)
    · exact h.sameShape a ha b hb hab
  · rcases hsub other hother with rfl | hother
    · intro e he
      change e ∈ s.cached other.cache at he
      rw [hempty] at he
      cases he
    · exact hsound.owns other hother

/-- A new template is in no cache. -/
theorem newTemplate (h : σ.Sound) (name source : String) :
    Sound ⟨σ.environments, (Environment.newTemplate name source σ.state).2⟩ where
  discreet := h.discreet
  counted := h.counted
  sameShape := h.sameShape
  known cache e he := by
    change e.2 < (σ.state.templates.push _).size
    rw [Array.size_push]
    exact Nat.lt_succ_of_lt (h.known cache e he)
  apart := h.apart
  owns env henv e he t c ht := by
    change (σ.state.templates.push _)[e.2]? = some t at ht
    have hlt := h.known env.cache e he
    rw [Array.getElem?_push, if_neg (Nat.ne_of_lt hlt)] at ht
    exact h.owns env henv e he t c ht

/-! ### Operations of one environment -/

variable (h : σ.Sound) (henv : env ∈ σ.environments)

include h

/-- A new template may be compiled. -/
theorem suits_of_size_le {id : TemplateId} (hid : σ.state.templates.size ≤ id) : σ.Suits env id := by
  refine .inr fun other _ e he heq => ?_
  exact absurd (heq ▸ h.known _ e he) (Nat.not_lt.2 hid)

/-- Loading and compiling what may be compiled. -/
theorem tends : env.Tends (env.Moves (σ.Suits env) σ.state) (σ.Suits env) :=
  Environment.Moves.tends fun _ => h.suits_of_size_le

include henv

/-- What an environment keeps it may compile. -/
theorem moves_refl : env.Moves (σ.Suits env) σ.state σ.state := by
  refine .refl fun e he => ⟨.inr fun other hother e' he' heq => ?_, h.known _ e he⟩
  exact h.sameShape env henv other hother (h.apart _ _ e' he' e he heq)

/-- What one environment does to the templates keeps all caches in order. -/
theorem moves (hs : env.Moves (σ.Suits env) σ.state s) : Sound ⟨σ.environments, s⟩ := by
  have hsize : σ.state.templates.size ≤ s.templates.size := hs.templates.size_le
  -- an entry of another cache is an old one
  have hold : ∀ cache, cache ≠ env.cache → ∀ e ∈ s.cached cache, e ∈ σ.state.cached cache := by
    intro cache hne e he
    rw [hs.caches cache hne] at he
    exact he
  -- so it is no entry of this one, which were there before or are new
  have hapart : ∀ cache, cache ≠ env.cache → ∀ e ∈ s.cached cache, ∀ e' ∈ s.cached env.cache,
      e.2 ≠ e'.2 := by
    intro cache hne e he e' he' heq
    rcases (hs.kept e' he').2.2 with hstart | hnew
    · exact hne (h.apart _ _ e (hold cache hne e he) e' hstart heq)
    · exact absurd (heq ▸ h.known cache e (hold cache hne e he)) (Nat.not_lt.2 hnew)
  constructor
  case discreet => exact h.discreet
  case counted =>
    intro other hother
    exact Nat.lt_of_lt_of_eq (h.counted other hother) hs.cacheCount.symm
  case sameShape => exact h.sameShape
  case known =>
    intro cache e he
    by_cases hcache : cache = env.cache
    · subst hcache
      exact (hs.kept e he).2.1
    · exact Nat.lt_of_lt_of_le (h.known cache e (hold cache hcache e he)) hsize
  case apart =>
    intro cache other e he e' he' heq
    by_cases hcache : cache = env.cache
    · subst hcache
      by_cases hother : other = env.cache
      · exact hother.symm
      · exact absurd heq.symm (hapart other hother e' he' e he)
    · by_cases hother : other = env.cache
      · subst hother
        exact absurd heq (hapart cache hcache e he e' he')
      · exact h.apart cache other e (hold cache hcache e he) e' (hold other hother e' he') heq
  case owns =>
    intro other hother e he
    by_cases hcache : other.cache = env.cache
    · refine hs.owns ?_ fun _ => .inr (h.sameShape env henv other hother hcache)
      change e ∈ s.cached other.cache at he
      rw [hcache] at he
      rcases (hs.kept e he).2.2 with hstart | hnew
      · exact h.owns other hother e (hcache ▸ hstart)
      · -- a template that is new is not there at the start
        intro t c ht
        rw [Array.getElem?_eq_none hnew] at ht
        cases ht
    · have hstart := hold other.cache hcache e he
      exact hs.owns (h.owns other hother e hstart) fun hsuits =>
        hsuits.imp_right fun hkept => hkept other hother e hstart rfl

end Sound

/-! ### All operations -/

/-- An empty cache is added. -/
theorem cached_push (s : State) (cache : Nat) :
    ({ s with caches := s.caches.push [] } : State).cached cache = s.cached cache := by
  simp only [State.cached, Array.getElem?_push]
  split
  · rename_i heq
    rw [heq, Array.getElem?_eq_none (Nat.le_refl _)]
    rfl
  · rfl

/-- What is built in leaves templates and caches alone. -/
theorem create_discreet (s : State) : (Environment.create s).1.Discreet where
  source _ h := nomatch h
  filter e he v args t := by
    obtain ⟨_, _, rfl⟩ := List.mem_map.1 he
    exact ⟨rfl, rfl, rfl⟩
  tag _ h := nomatch h

/-- An environment with a configuration that is found valid. -/
theorem ofConfig_of_validate {config : Config}
    (h : config.validate = .ok ()) (s : State) :
    Environment.ofConfig config s = .ok (Environment.withNewCache
      { (Environment.create s).1 with config := config } (Environment.create s).2) := by
  rw [Environment.ofConfig, h]
  rfl

/-- An environment with a configuration of its own has the second of two new caches. -/
theorem ofConfig_spec {config : Config} {s₀ : State}
    (h : Environment.ofConfig config s₀ = .ok (env, s)) :
    env.Discreet ∧ env.cache = s₀.caches.size + 1 ∧ s.templates = s₀.templates ∧
      s.caches = (s₀.caches.push []).push [] := by
  cases hvalid : config.validate with
  | error e =>
      rw [Environment.ofConfig, hvalid] at h
      cases h
  | ok _ =>
      rw [ofConfig_of_validate hvalid] at h
      obtain ⟨rfl, rfl⟩ := Prod.mk.inj (Except.ok.inj h)
      exact ⟨{ create_discreet s₀ with }, Array.size_push .., rfl, rfl⟩

/-- A registration gives the environment a new, empty cache. -/
theorem apply_cache (r : Registration) (env : Environment) (s : State) :
    (r.apply env s).1.cache = s.caches.size ∧
      (r.apply env s).2 = { s with caches := s.caches.push [] } := by
  cases r <;> exact ⟨rfl, rfl⟩

theorem apply_discreet {r : Registration} (hr : r.Discreet) (henv : env.Discreet) (s : State) :
    (r.apply env s).1.Discreet := by
  cases r with
  | loader l =>
      refine { henv with source := fun l' hl' => ?_ }
      rcases List.mem_append.1 hl' with hl' | hl'
      · exact henv.source l' hl'
      · obtain rfl := List.mem_singleton.1 hl'
        exact hr
  | filter name f =>
      refine { henv with filter := fun e he v args t => ?_ }
      rcases List.mem_cons.1 he with rfl | he
      · exact ⟨rfl, rfl, rfl⟩
      · exact henv.filter e (List.mem_of_mem_filter he) v args t
  | asyncFilter name f =>
      refine { henv with filter := fun e he v args t => ?_ }
      rcases List.mem_cons.1 he with rfl | he
      · exact hr v args t
      · exact henv.filter e (List.mem_of_mem_filter he) v args t
  | test name t => exact { henv with }
  | global name v => exact { henv with }
  | extension x =>
      refine { henv with tag := fun x' hx' => ?_ }
      rcases List.mem_append.1 hx' with hx' | hx'
      · exact henv.tag x' hx'
      · obtain rfl := List.mem_singleton.1 hx'
        exact hr

/-- Each operation keeps the caches in order. -/
theorem Sound.step {σ' : Session} (h : σ.Sound) (hstep : Step Suits σ σ') : σ'.Sound := by
  cases hstep with
  | create =>
      refine h.extend (s := (Environment.create σ.state).2) (create_discreet σ.state) rfl
        (Nat.le_refl _) ?_ (fun cache => ?_) ?_
      · exact Nat.lt_of_lt_of_eq (Nat.lt_succ_self _) (Array.size_push ..).symm
      · exact cached_push σ.state cache
      · intro other hother
        rcases List.mem_append.1 hother with hother | hother
        · exact .inr hother
        · exact .inl (List.mem_singleton.1 hother)
  | @ofConfig config env s hconfig =>
      obtain ⟨hdiscreet, hcache, htemplates, hcaches⟩ := ofConfig_spec hconfig
      refine h.extend hdiscreet htemplates ?_ ?_ (fun cache => ?_) ?_
      · omega
      · rw [hcache, hcaches, Array.size_push, Array.size_push]
        exact Nat.lt_succ_self _
      · rw [State.cached, hcaches]
        exact (cached_push { σ.state with caches := σ.state.caches.push [] } cache).trans
          (cached_push σ.state cache)
      · intro other hother
        rcases List.mem_append.1 hother with hother | hother
        · exact .inr hother
        · exact .inl (List.mem_singleton.1 hother)
  | @copy env henv =>
      refine h.sublist fun other hother => ?_
      rcases List.mem_append.1 hother with hother | hother
      · exact hother
      · obtain rfl := List.mem_singleton.1 hother
        exact henv
  | drop i => exact h.sublist fun other hother => List.mem_of_mem_eraseIdx hother
  | @register i env henv r hr =>
      have hmem := List.mem_of_getElem? henv
      obtain ⟨hcache, hstate⟩ := apply_cache r env σ.state
      refine h.extend (apply_discreet hr (h.discreet env hmem) σ.state) ?_ ?_ ?_ (fun cache => ?_) ?_
      · rw [hstate]
      · rw [hcache]
      · rw [hcache, hstate]
        exact Nat.lt_of_lt_of_eq (Nat.lt_succ_self _) (Array.size_push ..).symm
      · rw [hstate]
        exact cached_push σ.state cache
      · intro other hother
        exact (List.mem_or_eq_of_mem_set hother).symm
  -- one cache is emptied, and the others stay as they are
  | @invalidate env henv =>
      refine h.shrink rfl ?_ fun cache e he => ?_
      · exact Nat.le_of_eq (Array.size_modify ..).symm
      · by_cases hcache : cache = env.cache
        · subst hcache
          simp only [State.cached, Environment.invalidateCache, Array.getElem?_modify, if_true] at he
          cases hentries : σ.state.caches[env.cache]? <;> simp [hentries] at he
        · rwa [Environment.invalidateCache, State.cached_modify_of_ne hcache] at he
  | @other s hs =>
      refine h.shrink hs.templates (Nat.le_of_eq (congrArg Array.size hs.caches).symm) ?_
      intro cache e he
      rwa [State.cached, hs.caches] at he
  | newTemplate name source => exact h.newTemplate name source
  | @load env henv name parent ignoreMissing n =>
      have hstays := h.tends.load_stays (h.discreet env henv) name parent ignoreMissing σ.state
        (h.moves_refl henv)
      exact h.moves henv (hstays.finish n).1
  | @compile env henv id hid n =>
      have hstays := h.tends.compile_stays hid σ.state (h.moves_refl henv)
      exact h.moves henv (hstays.finish n).1
  | @render env henv depth entry hentry data n =>
      have henv' := h.discreet env henv
      -- whatever template is compiled from now on suits the environment
      have hT : ∀ id, σ.state.templates.size ≤ id → σ.Suits env id := fun _ => h.suits_of_size_le
      have hev := Evaluator.Mirrored.tied
        (henv'.keeps (Environment.Moves.tends_rendering hT) Environment.Moves.guarded_rendering)
        (fun _ _ => Environment.within_reaches) depth
      exact h.moves henv (henv'.renderWith_moves hT hev (h.moves_refl henv) hentry data n).2

/-- The caches are in order whatever a host does. -/
theorem Reachable.sound (h : σ.Reachable Suits) : σ.Sound := by
  induction h with
  | initial => exact .initial
  | step _ hstep ih => exact ih.step hstep

/-- Whatever a host did before, when an environment renders a template by name, then this and all
templates that are rendered with it have the trees that are made of their sources anew with what is
registered in the environment. -/
theorem Reachable.renderEntry_anew (h : σ.Reachable Suits) (henv : env ∈ σ.environments)
    (depth : Nat) (name : String) (data : Value) (n : Nat) :
    (env.renderEntry depth (.named name) data σ.state).finish n =
      (env.renderWith (.anew env depth) (.named name) data σ.state).finish n ∧
        ∀ e ∈ σ.state.cached env.cache, ∀ t c, σ.state.templates[e.2]? = some t →
          t.compiled = some c → env.Builds t c := by
  have hsound := h.sound
  have hdiscreet := hsound.discreet env henv
  -- a template that is new is not compiled
  have hT : ∀ id, σ.state.templates.size ≤ id → env.Owns σ.state id := by
    intro id hid t c ht
    rw [Array.getElem?_eq_none hid] at ht
    cases ht
  have hstart : env.Moves (env.Owns σ.state) σ.state σ.state :=
    .refl fun e he => ⟨hsound.owns env henv e he, hsound.known _ e he⟩
  have hev := hdiscreet.anew (Environment.Moves.tends_rendering hT)
    Environment.Moves.guarded_rendering
    (fun hs hid => hs.owns hid fun _ => .inr (.refl env)) depth
  have hentry : ∀ id, Environment.Entry.named name = .template id → env.Owns σ.state id := by
    intro id heq
    cases heq
  refine ⟨?_, hsound.owns env henv⟩
  exact (hdiscreet.renderWith_moves hT hev hstart hentry data n).1.symm

/-! ### Two environments -/

/-- Comments between angle brackets. -/
def angled : Config :=
  { Config.standard with delimiters := { Delimiters.standard with
    commentStart := "<#"
    commentEnd := "#>" } }

/-- A host with two environments.  The first one has loaded a template, in which the second one would
find a comment. -/
def besideAngled : Session :=
  let (env, s) := Environment.ofMemory [("page", "a<# b #>")]
  let (created, s) := Environment.create s
  let (second, s) := Environment.withNewCache { created with config := angled } s
  ⟨[env, second], ((env.load "page" none false s).finish 0).2⟩

theorem besideAngled_reachable {may : Session → Environment → TemplateId → Prop} :
    besideAngled.Reachable may := by
  have hmemory : Reachable may ⟨[], Loader.insert 0 "page" "a<# b #>" (Loader.newMemory .initial).2⟩ :=
    Reachable.initial.step (.other ⟨rfl, rfl, rfl⟩)
  have hfirst := (hmemory.step (.create _)).step
    (.register (i := 0) rfl (.loader (.memory 0 true)) fun _ _ => ⟨rfl, rfl, rfl⟩)
  have hvalid : angled.validate = .ok () := by decide +kernel
  have hboth := hfirst.step (.ofConfig (ofConfig_of_validate hvalid _))
  exact hboth.step (.load List.mem_cons_self "page" none false 0)

/-- The host after the first environment has rendered the template. -/
def afterRendering : Session :=
  let (env, _) := Environment.ofMemory [("page", "a<# b #>")]
  ⟨besideAngled.environments,
    ((env.renderEntry 20 (.named "page") .nothing besideAngled.state).finish 0).2⟩

/-- What is no comment for the environment stays in its text. -/
theorem Reachable.renderEntry_anew_afterRendering :
    let (env, _) := Environment.ofMemory [("page", "a<# b #>")]
    afterRendering.Reachable Suits ∧ env ∈ afterRendering.environments ∧
      ((env.renderEntry 20 (.named "page") .nothing afterRendering.state).finish 0).1.bind
        Except.toOption = some "a<# b #>" ∧
      (env.renderEntry 20 (.named "page") .nothing afterRendering.state).finish 0 =
        (env.renderWith (.anew env 20) (.named "page") .nothing afterRendering.state).finish 0 ∧
        ∀ e ∈ afterRendering.state.cached env.cache, ∀ t c, afterRendering.state.templates[e.2]? = some t →
          t.compiled = some c → env.Builds t c := by
  have hreachable : afterRendering.Reachable Suits :=
    besideAngled_reachable.step (.render List.mem_cons_self 20 (fun _ h => nomatch h) .nothing 0)
  exact ⟨hreachable, List.mem_cons_self, by decide +kernel,
    hreachable.renderEntry_anew List.mem_cons_self 20 "page" .nothing 0⟩

/-- If the second environment compiles the template, then the first one renders it with a tree that it
would not make of it. -/
theorem Reachable.renderEntry_compiled_elsewhere :
    ∃ σ : Session, σ.Reachable (fun _ _ _ => True) ∧ ∃ env ∈ σ.environments,
      ((env.renderEntry 20 (.named "page") .nothing σ.state).finish 0).1.bind Except.toOption =
        some "a" ∧
      ((env.renderWith (.anew env 20) (.named "page") .nothing σ.state).finish 0).1.bind
        Except.toOption = some "a<# b #>" := by
  refine ⟨_, besideAngled_reachable.step
    (@Step.compile _ _ _ (List.mem_cons_of_mem _ List.mem_cons_self) 0 trivial 0), _,
    List.mem_cons_self, ?_⟩
  constructor <;> decide +kernel

end Session

end Stencil
