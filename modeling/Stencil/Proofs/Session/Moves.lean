/-
**What an environment does to the templates.**

From where an operation of an environment starts, it compiles only templates that it may compile, and
it does so with what is registered in the environment; in its cache it keeps only templates that are
new; and all other caches stay as they are.  This holds while it loads and while it renders, however
often it waits.

Main definitions:

* `Stencil.State.cached`, `Stencil.State.Compiled` — what a cache keeps, and what is compiled;
* `Stencil.Environment.Moves` — what an operation did to the templates so far;
* `Stencil.Environment.Rendering` — and what is known of the templates that are extended while it
  renders.

Main results:

* `Stencil.Environment.Moves.tends` — loading and compiling are such operations;
* `Stencil.Environment.Discreet.renderWith_moves` — so is rendering, by any evaluator that is compared
  with the one that renders.
-/

import Stencil.Proofs.Session.Trees

set_option autoImplicit false

namespace Stencil

variable {env other : Environment} {T : TemplateId → Prop} {start s s' : State} {α : Type}

/-! ### Caches -/

/-- What a cache keeps. -/
def State.cached (s : State) (cache : Nat) : List (String × TemplateId) := (s.caches[cache]?).getD []

/-- A template is compiled. -/
def State.Compiled (s : State) (id : TemplateId) : Prop :=
  ∃ t c, s.templates[id]? = some t ∧ t.compiled = some c

theorem State.cached_modify_of_ne {cache other : Nat} (h : other ≠ cache)
    (f : List (String × TemplateId) → List (String × TemplateId)) :
    ({ s with caches := s.caches.modify cache f } : State).cached other = s.cached other := by
  simp [cached, Array.getElem?_modify, h.symm]

/-- An entry of a cache after another name was given a meaning. -/
theorem State.mem_cached_register {cache : Nat} {name : String} {id : TemplateId}
    {e : String × TemplateId} (h : e ∈ ({ s with
      caches := s.caches.modify cache fun entries => register entries name id } : State).cached cache) :
    e = (name, id) ∨ e ∈ s.cached cache := by
  simp only [cached, Array.getElem?_modify, if_true] at h ⊢
  cases hcache : s.caches[cache]? with
  | none => simp [hcache] at h
  | some entries =>
      simp only [hcache, Option.map_some, Option.getD_some, register, List.mem_cons,
        List.mem_filter] at h ⊢
      exact h.imp (fun h => h) And.left

theorem Poll.Stays.finish {I : State → Prop} {Q : α → Prop} {p : Poll α} (h : p.Stays I Q) (n : Nat) :
    I (p.finish n).2 ∧ ∀ a, (p.finish n).1 = some (.ok a) → Q a := by
  induction p generalizing n with
  | done answer s =>
      have hfinish : (Poll.done answer s).finish n = (some answer, s) := by cases n <;> rfl
      rw [hfinish]
      exact ⟨h.1, fun a ha => h.2 a (Option.some.inj ha)⟩
  | wait s rest ih =>
      cases n with
      | zero => exact ⟨h.1, fun _ ha => nomatch ha⟩
      | succ n => exact ih s (h.2 s h.1) n

namespace Environment

/-! ### Operations -/

/-- What an operation of an environment did to the templates, if it may compile some of them. -/
structure Moves (env : Environment) (T : TemplateId → Prop) (start s : State) : Prop where
  templates : Extends Template.SameSource start.templates s.templates
  compiled : ∀ id t c, s.templates[id]? = some t → t.compiled = some c →
    (∃ u, start.templates[id]? = some u ∧ u.compiled = some c) ∨ T id ∧ env.Builds t c
  caches : ∀ cache, cache ≠ env.cache → s.cached cache = start.cached cache
  cacheCount : s.caches.size = start.caches.size
  kept : ∀ e ∈ s.cached env.cache, T e.2 ∧ e.2 < s.templates.size ∧
    (e ∈ start.cached env.cache ∨ start.templates.size ≤ e.2)

/-- While it renders, the templates that are extended are among those that it may compile. -/
structure Rendering (env : Environment) (T : TemplateId → Prop) (start s : State) : Prop
    extends Moves env T start s where
  extended : ∀ (i : Nat) id, s.parents[i]? = some (some id) → T id

namespace Moves

theorem refl (h : ∀ e ∈ start.cached env.cache, T e.2 ∧ e.2 < start.templates.size) :
    env.Moves T start start where
  templates := Extends.refl Template.SameSource.refl _
  compiled _ t _ ht hc := .inl ⟨t, ht, hc⟩
  caches _ _ := rfl
  cacheCount := rfl
  kept e he := ⟨(h e he).1, (h e he).2, .inl he⟩

/-- The operation has nothing to do with other parts of the state. -/
theorem same (h : env.Moves T start s) (htemplates : s'.templates = s.templates)
    (hcaches : s'.caches = s.caches) : env.Moves T start s' where
  templates := htemplates ▸ h.templates
  compiled := htemplates ▸ h.compiled
  caches := by simpa only [State.cached, hcaches] using h.caches
  cacheCount := hcaches ▸ h.cacheCount
  kept := by simpa only [State.cached, hcaches, htemplates] using h.kept

/-- A new template is not compiled. -/
theorem newTemplate (h : env.Moves T start s) (name source : String) :
    env.Moves T start (Environment.newTemplate name source s).2 where
  templates := Extends.trans (fun _ _ _ h h' => h.trans h') h.templates
    (.push Template.SameSource.refl _ _)
  compiled id t c ht hc := by
    rw [Environment.newTemplate, Array.getElem?_push] at ht
    split at ht
    · cases ht
      cases hc
    · exact h.compiled id t c ht hc
  caches := h.caches
  cacheCount := h.cacheCount
  kept e he := by
    obtain ⟨hT, hlt, hnew⟩ := h.kept e he
    refine ⟨hT, ?_, hnew⟩
    change e.2 < (s.templates.push _).size
    rw [Array.size_push]
    exact Nat.lt_succ_of_lt hlt

/-- A source becomes a template with a number of its own, which may be kept. -/
theorem keep (h : env.Moves T start s) (hT : ∀ id, start.templates.size ≤ id → T id) (name : String)
    (source : Source) : env.Moves T start (env.keep name source s).2 ∧ T (env.keep name source s).1 := by
  have hsize := h.templates.size_le
  have hnew := h.newTemplate source.path source.text
  unfold Environment.keep
  dsimp only
  split
  · refine ⟨{ hnew with caches := fun cache hne => ?_, cacheCount := ?_, kept := fun e he => ?_ },
      hT _ hsize⟩
    · rw [State.cached_modify_of_ne hne]
      exact hnew.caches cache hne
    · exact (Array.size_modify ..).trans hnew.cacheCount
    · rcases State.mem_cached_register he with rfl | he
      · refine ⟨hT _ hsize, ?_, .inr hsize⟩
        change s.templates.size < (s.templates.push _).size
        rw [Array.size_push]
        exact Nat.lt_succ_self _
      · exact hnew.kept e he
  · exact ⟨hnew, hT _ hsize⟩

/-- A template that may be compiled is compiled. -/
theorem compile (h : env.Moves T start s) {id : TemplateId} {t : Template} {c : Compiled} {next : Nat}
    (hid : T id) (ht : s.templates[id]? = some t) (hnone : t.compiled = none) (hc : env.Builds t c) :
    env.Moves T start
      { s with next := next, templates := s.templates.modify id fun t => { t with compiled := some c } }
    where
  templates := by
    refine Extends.trans (fun _ _ _ h h' => h.trans h') h.templates
      (.modify Template.SameSource.refl _ _ _ fun u hu => ⟨rfl, rfl, fun d hd => ?_⟩)
    rw [ht] at hu
    cases hu
    rw [hnone] at hd
    cases hd
  compiled i u d hu hd := by
    rw [Array.getElem?_modify] at hu
    split at hu
    · rename_i heq
      subst heq
      rw [ht] at hu
      cases hu
      cases hd
      exact .inr ⟨hid, hc⟩
    · exact h.compiled i u d hu hd
  caches := h.caches
  cacheCount := h.cacheCount
  kept e he := by
    obtain ⟨hT, hlt, hnew⟩ := h.kept e he
    exact ⟨hT, by simpa using hlt, hnew⟩

variable (hT : ∀ id, start.templates.size ≤ id → T id)

include hT

/-- Loading and compiling are such operations. -/
theorem tends : env.Tends (env.Moves T start) T where
  same hsame h := h.same hsame.templates hsame.caches
  cached h hid := (h.kept _ (Named.mem_of_get? hid)).1
  keep name source h := h.keep hT name source
  compile h hid ht hnone hc := h.compile hid ht hnone hc

theorem tends_rendering : env.Tends (env.Rendering T start) T where
  same hsame h := ⟨h.toMoves.same hsame.templates hsame.caches, hsame.parents ▸ h.extended⟩
  cached h hid := (h.kept _ (Named.mem_of_get? hid)).1
  keep {s} name source h := by
    have hparents : (env.keep name source s).2.parents = s.parents := by
      simp only [Environment.keep, Environment.newTemplate]
      split <;> rfl
    obtain ⟨hmoves, hid⟩ := h.toMoves.keep hT name source
    exact ⟨⟨hmoves, hparents ▸ h.extended⟩, hid⟩
  compile h hid ht hnone hc := ⟨h.toMoves.compile hid ht hnone hc, h.extended⟩

omit hT

theorem guarded_rendering : Guarded (env.Rendering T start) T where
  same hsame _ h := ⟨h.toMoves.same hsame.templates hsame.caches, hsame.parents ▸ h.extended⟩
  create h := by
    refine ⟨h.toMoves.same rfl rfl, fun i id hid => ?_⟩
    rw [Array.getElem?_push] at hid
    split at hid
    · cases hid
    · exact h.extended i id hid
  extended h hid := h.extended _ _ hid
  setExtended i h hid := by
    refine ⟨h.toMoves.same rfl rfl, fun j id hj => ?_⟩
    rw [Array.getElem?_modify] at hj
    split at hj
    · obtain ⟨_, _, heq⟩ := Option.map_eq_some_iff.1 hj
      cases heq
      exact hid
    · exact h.extended j id hj

/-- What starts a rendering forgets the templates that were extended before. -/
theorem startRun (h : env.Moves T start s) : env.Rendering T start (Environment.startRun s) :=
  ⟨h.same rfl rfl, fun i id hid => by simp [Environment.startRun] at hid⟩

/-- What is compiled has the tree of an environment, if what was compiled at the start had, and if this
environment makes the same trees of what may be compiled. -/
theorem owns (h : env.Moves T start s) {id : TemplateId} (hid : other.Owns start id)
    (hshape : T id → start.Compiled id ∨ env.SameShape other) : other.Owns s id := by
  -- what was compiled at the start keeps its tree
  have hstart : ∀ t c u, s.templates[id]? = some t → start.templates[id]? = some u →
      u.compiled = some c → t.compiled = some c ∧ other.Builds t c := by
    intro t c u ht hu hc
    obtain ⟨t', ht', hname, hsource, hcompiled⟩ := h.templates id u hu
    rw [ht] at ht'
    cases ht'
    obtain ⟨number, hbuild⟩ := hid u c hu hc
    exact ⟨hcompiled c hc, number, by rw [hname, hsource]; exact hbuild⟩
  intro t c ht hc
  rcases h.compiled id t c ht hc with ⟨u, hu, huc⟩ | ⟨hT, hbuilds⟩
  · exact (hstart t c u ht hu huc).2
  · rcases hshape hT with ⟨u, d, hu, hud⟩ | hsame
    · obtain ⟨hd, hother⟩ := hstart t d u ht hu hud
      rw [hc] at hd
      cases hd
      exact hother
    · exact hsame.builds hbuilds

end Moves

/-! ### Rendering -/

namespace Discreet

variable (henv : env.Discreet) (hT : ∀ id, start.templates.size ≤ id → T id)

include henv hT

/-- What is entered by name or by a source is among the templates that may be compiled. -/
theorem enter_stays {entry : Entry} (hentry : ∀ id, entry = .template id → T id) :
    (env.enter entry).Stays (env.Moves T start) T := by
  cases entry with
  | template id => exact .pure (hentry id rfl)
  | named name => exact (Moves.tends hT).loadRequired_stays henv name none
  | source text =>
      exact Action.Stays.change (f := newTemplate "<string>" text) fun s hs =>
        ⟨hs.newTemplate _ _, hT _ hs.templates.size_le⟩

/-- A template that was entered is rendered. -/
theorem runData_moves {ev ev' : Evaluator}
    (hev : Evaluator.Mirrored ((Likeness.within (env.Rendering T start)).lockstep fun _ => False) ev ev'
      T) (hs : env.Moves T start s) {id : TemplateId} (hid : T id) (data : Value) (n : Nat) :
    (env.runData ev' data id s).finish n = (env.runData ev data id s).finish n ∧
      env.Moves T start ((env.runData ev data id s).finish n).2 := by
  have hM := henv.keeps (Moves.tends_rendering hT) Moves.guarded_rendering
  have hsteps : ∀ ev : Evaluator, env.runData ev data id s =
      (Action.ofExcept (dataBindings data) s).bind fun bindings s =>
        ev.run env id bindings (Environment.startRun s) := fun _ => rfl
  rw [hsteps, hsteps]
  cases dataBindings data with
  | error e =>
      have hfailed : ∀ f : Bindings → State → Poll String,
          ((Action.ofExcept (.error e) s).bind f).finish n = (some (.error e), s) := by
        intro f
        cases n <;> rfl
      rw [hfailed, hfailed]
      exact ⟨rfl, hs⟩
  | ok bindings =>
      have hrun := Likeness.within_finish (hev.run hM.toServes id hid (.refl (fun _ => rfl) bindings))
        (fun _ _ h => h) hs.startRun n
      exact ⟨hrun.1, hrun.2.toMoves⟩

/-- Rendering is such an operation, and so it is with any evaluator that is compared with the one that
renders. -/
theorem renderWith_moves {ev ev' : Evaluator}
    (hev : Evaluator.Mirrored ((Likeness.within (env.Rendering T start)).lockstep fun _ => False) ev ev'
      T) (hstart : env.Moves T start start) {entry : Entry}
    (hentry : ∀ id, entry = .template id → T id) (data : Value) (n : Nat) :
    ((env.renderWith ev' entry data) start).finish n = ((env.renderWith ev entry data) start).finish n ∧
      env.Moves T start (((env.renderWith ev entry data) start).finish n).2 := by
  have henter := henv.enter_stays hT hentry start hstart
  rcases Poll.finish_bind (β := String) (env.enter entry start) n with
    ⟨m, id, t, hfinish, hrest⟩ | ⟨e, t, hfinish, hrest⟩
  · -- what is known is known where the template is entered
    obtain ⟨hmoves, hid⟩ := henter.finish m
    rw [hfinish] at hmoves hid
    have hsteps : ∀ ev : Evaluator, ((env.renderWith ev entry data) start).finish n =
        (env.runData ev data id t).finish (n - m) := fun ev => hrest (env.runData ev data)
    rw [hsteps, hsteps]
    exact henv.runData_moves hT hev hmoves (hid id rfl) data _
  · have hmoves := (henter.finish n).1
    rw [hfinish] at hmoves
    have hnone : ∀ ev : Evaluator, ((env.renderWith ev entry data) start).finish n =
        (Option.map Except.error e, t) := fun ev => hrest (env.runData ev data)
    rw [hnone, hnone]
    exact ⟨rfl, hmoves⟩

end Discreet

end Environment

end Stencil
