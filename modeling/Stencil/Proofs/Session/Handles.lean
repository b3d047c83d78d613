/-
**Handles of environments are independent.**

A host works with environments by handles.  A copy of a handle has the same registrations and the same
cache, until something is registered through one of the two: from then on this one has registrations of
its own, and a new cache.  The names of the filters that may suspend are kept beside the filters, so a
name that is registered again has to change both.  Here it is shown that all this stays in order
whatever a host does with its handles, in whatever order.  What loaders do is not asked about, only that
they unmake no caches.

Main definitions:

* `Stencil.Environment.Consistent` — the filters that may suspend are those that are known to;
* `Stencil.Session.register` — something is registered through a handle;
* `Stencil.Session.Handling`, `Stencil.Session.Handled` — what a host does with handles, and what it
  comes to;
* `Stencil.Session.Ordered` — the handles are in order.

Main results:

* `Stencil.Session.Ordered.step` — each operation keeps the handles in order;
* `Stencil.Session.Handled.independent` — **handles are consistent, share a cache only while they are
  equal, and register for themselves**.
-/

import Stencil.Proofs.Session.Operations

set_option autoImplicit false

namespace Stencil

variable {env other : Environment} {s : State} {r : Registration}

/-! ### Registrations -/

section Registered

variable {α : Type} (entries : List (String × α)) {name name' : String} (a : α)

theorem lookup_register_self : (register entries name a).lookup name = some a := by
  simp [register]

theorem lookup_register_of_ne (h : name' ≠ name) :
    (register entries name a).lookup name' = entries.lookup name' := by
  have hrest : ∀ entries : List (String × α),
      (entries.filter fun entry => entry.1 != name).lookup name' = entries.lookup name' := by
    intro entries
    induction entries with
    | nil => rfl
    | cons entry rest ih =>
        obtain ⟨other, b⟩ := entry
        by_cases hother : other = name
        · subst hother
          have hne : (name' == other) = false := by simpa using h
          simpa [List.lookup_cons, hne] using ih
        · by_cases hname : name' = other
          · subst hname
            simp [hother]
          · have hne : (name' == other) = false := by simpa using hname
            simpa [hother, List.lookup_cons, hne] using ih
  have hne : (name' == name) = false := by simpa using h
  rw [register, List.lookup_cons, hne]
  exact hrest entries

end Registered

/-- The filters that may suspend are those whose names are known to be such. -/
def Environment.Consistent (env : Environment) : Prop :=
  ∀ name, name ∈ env.asyncFilters ↔ ∃ f, env.filters.lookup name = some (.suspending f)

namespace Environment.Consistent

/-- What is built in does not suspend. -/
theorem create (s : State) : (Environment.create s).1.Consistent := by
  intro name
  refine iff_of_false (by simp [Environment.create]) ?_
  rintro ⟨f, hf⟩
  have hmem := Named.mem_of_get? hf
  simp [Environment.create] at hmem

theorem addFilter (h : env.Consistent) (name : String)
    (f : Value → List Value → Immediate Value) : (env.addFilter name f s).1.Consistent := by
  intro other
  change other ∈ env.asyncFilters.filter (fun o => o != name) ↔
    ∃ g, (register env.filters name (.immediate f)).lookup other = some (.suspending g)
  by_cases hname : other = name
  · subst hname
    simp [lookup_register_self]
  · rw [lookup_register_of_ne _ _ hname, ← h other]
    simp [hname]

theorem addAsyncFilter (h : env.Consistent) (name : String)
    (f : Value → List Value → Action Value) : (env.addAsyncFilter name f s).1.Consistent := by
  intro other
  change other ∈ name :: env.asyncFilters.filter (fun o => o != name) ↔
    ∃ g, (register env.filters name (.suspending f)).lookup other = some (.suspending g)
  by_cases hname : other = name
  · subst hname
    simp [lookup_register_self]
  · rw [lookup_register_of_ne _ _ hname, ← h other]
    simp [hname]

/-- Whatever is registered, filters and names stay in step. -/
theorem apply (h : env.Consistent) (r : Registration) (s : State) :
    (r.apply env s).1.Consistent := by
  cases r with
  | filter name f => exact h.addFilter name f
  | asyncFilter name f => exact h.addAsyncFilter name f
  | loader | test | global | extension => exact h

end Environment.Consistent

/-! ### Caches are not unmade -/

/-- A loader unmakes no caches. -/
def Loader.Sparing (loader : Loader) : Prop :=
  ∀ name count, (loader.source name).Stays (fun s => count ≤ s.caches.size) fun _ => True

theorem Loader.memory_sparing (number : Nat) (cacheable : Bool) :
    (Loader.memory number cacheable).Sparing :=
  fun _ _ => .read fun _ _ => trivial

/-- The loaders of an environment unmake no caches. -/
def Environment.Sparing (env : Environment) : Prop := ∀ loader ∈ env.loaders, loader.Sparing

/-- What is registered unmakes no caches when templates are loaded. -/
def Registration.Sparing : Registration → Prop
  | .loader l => l.Sparing
  | _ => True

theorem Environment.Sparing.apply (h : env.Sparing) (hr : r.Sparing) (s : State) :
    (r.apply env s).1.Sparing := by
  cases r with
  | loader l =>
      intro l' hl'
      rcases List.mem_append.1 hl' with hl' | hl'
      · exact h l' hl'
      · obtain rfl := List.mem_singleton.1 hl'
        exact hr
  | filter | asyncFilter | test | global | extension => exact h

/-- Loading and compiling unmake no caches. -/
theorem Environment.tends_caches (env : Environment) (count : Nat) :
    env.Tends (fun s => count ≤ s.caches.size) fun _ => True where
  same hsame hs := hsame.caches.symm ▸ hs
  cached _ _ := trivial
  keep {s} name source hs := by
    have hsize : (env.keep name source s).2.caches.size = s.caches.size := by
      unfold keep
      dsimp only
      split
      · exact Array.size_modify ..
      · rfl
    exact ⟨hsize.symm ▸ hs, trivial⟩
  compile hs _ _ _ _ := hs

/-! ### What a host does with handles -/

namespace Session

/-- Something is registered through a handle. -/
def register (σ : Session) (i : Nat) (env : Environment) (r : Registration) : Session :=
  ⟨σ.environments.set i (r.apply env σ.state).1, (r.apply env σ.state).2⟩

/-- One operation of a host with its handles.  A load may wait, and is polled some times. -/
inductive Handling : Session → Session → Prop
  | create (σ : Session) :
    Handling σ ⟨σ.environments ++ [(Environment.create σ.state).1], (Environment.create σ.state).2⟩
  | ofConfig {σ : Session} {config : Config} {env : Environment} {s : State}
    (h : Environment.ofConfig config σ.state = .ok (env, s)) :
    Handling σ ⟨σ.environments ++ [env], s⟩
  | copy {σ : Session} {i : Nat} {env : Environment} (h : σ.environments[i]? = some env) :
    Handling σ ⟨σ.environments ++ [env], σ.state⟩
  | drop (σ : Session) (i : Nat) : Handling σ ⟨σ.environments.eraseIdx i, σ.state⟩
  | register {σ : Session} {i : Nat} {env : Environment} (h : σ.environments[i]? = some env)
    (r : Registration) (hr : r.Sparing) : Handling σ (σ.register i env r)
  | load {σ : Session} {i : Nat} {env : Environment} (h : σ.environments[i]? = some env)
    (name : String) (parent : Option String) (ignoreMissing : Bool) (n : Nat) :
    Handling σ ⟨σ.environments, ((env.load name parent ignoreMissing σ.state).finish n).2⟩
  | invalidate {σ : Session} {i : Nat} {env : Environment} (h : σ.environments[i]? = some env) :
    Handling σ ⟨σ.environments, env.invalidateCache σ.state⟩
  | other {σ : Session} {s : State} (h : s.caches = σ.state.caches) : Handling σ ⟨σ.environments, s⟩

/-- What operations with handles can come to. -/
inductive Handled : Session → Prop
  | initial : Handled ⟨[], .initial⟩
  | step {σ σ' : Session} (h : Handled σ) (hstep : Handling σ σ') : Handled σ'

/-! ### Handles in order -/

/-- Each handle is consistent, and handles that share a cache are equal. -/
structure Ordered (σ : Session) : Prop where
  sparing : ∀ env ∈ σ.environments, env.Sparing
  consistent : ∀ env ∈ σ.environments, env.Consistent
  counted : ∀ env ∈ σ.environments, env.cache < σ.state.caches.size
  equal : ∀ env ∈ σ.environments, ∀ other ∈ σ.environments, other.cache = env.cache → other = env

namespace Ordered

variable {σ σ' : Session}

theorem initial : Ordered ⟨[], .initial⟩ where
  sparing _ h := nomatch h
  consistent _ h := nomatch h
  counted _ h := nomatch h
  equal _ h := nomatch h

/-- Some handles are there no more, or twice, and caches are made or change what they keep. -/
theorem sublist (h : σ.Ordered) {environments : List Environment}
    (hsub : ∀ env ∈ environments, env ∈ σ.environments)
    (hcaches : σ.state.caches.size ≤ s.caches.size) : Ordered ⟨environments, s⟩ where
  sparing env henv := h.sparing env (hsub env henv)
  consistent env henv := h.consistent env (hsub env henv)
  counted env henv := Nat.lt_of_lt_of_le (h.counted env (hsub env henv)) hcaches
  equal env henv other hother := h.equal env (hsub env henv) other (hsub other hother)

/-- A handle with a cache of its own. -/
theorem extend (h : σ.Ordered) (hsparing : env.Sparing)
    (hconsistent : env.Consistent) (hnew : σ.state.caches.size ≤ env.cache)
    (hcounted : env.cache < s.caches.size) {environments : List Environment}
    (hsub : ∀ other ∈ environments, other = env ∨ other ∈ σ.environments) :
    Ordered ⟨environments, s⟩ := by
  -- no handle has had the new cache so far
  have hold : ∀ other ∈ σ.environments, other.cache ≠ env.cache := fun other hother =>
    Nat.ne_of_lt (Nat.lt_of_lt_of_le (h.counted other hother) hnew)
  constructor
  case sparing =>
    intro other hother
    rcases hsub other hother with rfl | hother
    · exact hsparing
    · exact h.sparing other hother
  case consistent =>
    intro other hother
    rcases hsub other hother with rfl | hother
    · exact hconsistent
    · exact h.consistent other hother
  case counted =>
    intro other hother
    rcases hsub other hother with rfl | hother
    · exact hcounted
    · have := h.counted other hother
      change other.cache < s.caches.size
      omega
  case equal =>
    intro a ha b hb hab
    rcases hsub a ha with rfl | ha <;> rcases hsub b hb with rfl | hb
    · rfl
    · exact absurd hab (hold b hb)
    · exact absurd hab.symm (hold a ha)
    · exact h.equal a ha b hb hab

/-- An environment with a configuration of its own has nothing registered in it. -/
theorem ofConfig_ordered {config : Config} {s₀ : State}
    (h : Environment.ofConfig config s₀ = .ok (env, s)) : env.Sparing ∧ env.Consistent := by
  cases hvalid : config.validate with
  | error e =>
      rw [Environment.ofConfig, hvalid] at h
      cases h
  | ok _ =>
      rw [ofConfig_of_validate hvalid] at h
      obtain ⟨rfl, rfl⟩ := Prod.mk.inj (Except.ok.inj h)
      exact ⟨List.forall_mem_nil _, Environment.Consistent.create s₀⟩

/-- Each operation keeps the handles in order. -/
theorem step (h : σ.Ordered) (hstep : Handling σ σ') : σ'.Ordered := by
  have happended : ∀ {new : Environment}, ∀ other ∈ σ.environments ++ [new],
      other = new ∨ other ∈ σ.environments := by
    intro new other hother
    rcases List.mem_append.1 hother with hother | hother
    · exact .inr hother
    · exact .inl (List.mem_singleton.1 hother)
  -- a handle that comes in has a cache of its own, or is the same environment as the one it is copied from
  cases hstep with
  | create =>
      have hsparing : (Environment.create σ.state).1.Sparing := List.forall_mem_nil _
      refine h.extend (s := (Environment.create σ.state).2) hsparing (.create σ.state) (Nat.le_refl _)
        ?_ happended
      exact Nat.lt_of_lt_of_eq (Nat.lt_succ_self _) (Array.size_push ..).symm
  | @ofConfig config env s hconfig =>
      obtain ⟨-, hcache, -, hcaches⟩ := ofConfig_spec hconfig
      obtain ⟨hsparing, hconsistent⟩ := ofConfig_ordered hconfig
      refine h.extend hsparing hconsistent ?_ ?_ happended
      · omega
      · rw [hcache, hcaches, Array.size_push, Array.size_push]
        exact Nat.lt_succ_self _
  | @copy i env henv =>
      refine h.sublist (fun other hother => ?_) (Nat.le_refl _)
      rcases happended other hother with rfl | hother
      · exact List.mem_of_getElem? henv
      · exact hother
  | drop i => exact h.sublist (fun other hother => List.mem_of_mem_eraseIdx hother) (Nat.le_refl _)
  | @register i env henv r hr =>
      have hmem := List.mem_of_getElem? henv
      obtain ⟨hcache, hstate⟩ := apply_cache r env σ.state
      refine h.extend ((h.sparing env hmem).apply hr _) ((h.consistent env hmem).apply r _)
        (Nat.le_of_eq hcache.symm) ?_ fun other hother => (List.mem_or_eq_of_mem_set hother).symm
      rw [hcache, hstate]
      exact Nat.lt_of_lt_of_eq (Nat.lt_succ_self _) (Array.size_push ..).symm
  | @load i env henv name parent ignoreMissing n =>
      have hstays := (env.tends_caches σ.state.caches.size).load_stays_of_source
        (fun loader hl name => h.sparing env (List.mem_of_getElem? henv) loader hl name _) name parent
        ignoreMissing σ.state (Nat.le_refl _)
      exact h.sublist (fun _ hother => hother) (hstays.finish n).1
  | invalidate => exact h.sublist (fun _ hother => hother) (Nat.le_of_eq (Array.size_modify ..).symm)
  | other hs => exact h.sublist (fun _ hother => hother) (Nat.le_of_eq (congrArg Array.size hs.symm))

end Ordered

/-- Handles are in order whatever a host does with them. -/
theorem Handled.ordered {σ : Session} (h : σ.Handled) : σ.Ordered := by
  induction h with
  | initial => exact .initial
  | step _ hstep ih => exact ih.step hstep

/-- Whatever a host does with its handles: the filters of each that may suspend are those whose names
are known to be such; two handles that share a cache are equal, with all that is registered in them; and
what is registered through a handle is registered in no other one, leaves the caches of the others as
they are, and gives the handle an empty cache. -/
theorem Handled.independent {σ : Session} (h : σ.Handled) :
    (∀ env ∈ σ.environments, ∀ name,
      name ∈ env.asyncFilters ↔ ∃ f, env.filters.lookup name = some (.suspending f)) ∧
    (∀ env ∈ σ.environments, ∀ other ∈ σ.environments, other.cache = env.cache → other = env) ∧
    ∀ i env r, σ.environments[i]? = some env →
      (∀ j, j ≠ i → (σ.register i env r).environments[j]? = σ.environments[j]?) ∧
      (∀ j other, j ≠ i → σ.environments[j]? = some other →
        (σ.register i env r).state.cached other.cache = σ.state.cached other.cache) ∧
      ∃ new, (σ.register i env r).environments[i]? = some new ∧
        (σ.register i env r).state.cached new.cache = [] := by
  have hordered := h.ordered
  refine ⟨hordered.consistent, hordered.equal, fun i env r henv => ?_⟩
  obtain ⟨hcache, hstate⟩ := apply_cache r env σ.state
  have hcached : ∀ cache, (σ.register i env r).state.cached cache = σ.state.cached cache := by
    intro cache
    change (r.apply env σ.state).2.cached cache = _
    rw [hstate]
    exact cached_push σ.state cache
  refine ⟨fun j hj => List.getElem?_set_ne hj.symm, fun j other _ _ => hcached other.cache, ?_⟩
  obtain ⟨hlt, -⟩ := List.getElem?_eq_some_iff.1 henv
  refine ⟨(r.apply env σ.state).1, List.getElem?_set_self hlt, ?_⟩
  -- no cache had the number of the new one
  rw [hcached, hcache, State.cached, Array.getElem?_eq_none (Nat.le_refl _)]
  rfl

/-! ### Two handles -/

/-- An environment with a filter that may suspend, and a page in memory. -/
def suspending : Environment × State :=
  let (env, s) := Environment.ofMemory [("page", "text")]
  env.addAsyncFilter "f" (fun v _ => return v) s

/-- A host with two handles of the environment, through one of which the page was loaded. -/
def copies : Session :=
  ⟨[suspending.1, suspending.1], ((suspending.1.load "page" none false suspending.2).finish 0).2⟩

theorem copies_handled : copies.Handled := by
  have hmemory : Handled ⟨[], Loader.insert 0 "page" "text" (Loader.newMemory .initial).2⟩ :=
    Handled.initial.step (.other rfl)
  have hfirst := (hmemory.step (.create _)).step
    (.register (i := 0) rfl (.loader (.memory 0 true)) (Loader.memory_sparing 0 true))
  have hfilter := hfirst.step
    (.register (i := 0) rfl (.asyncFilter "f" fun v _ => return v) trivial)
  exact (hfilter.step (.copy (i := 0) rfl)).step (.load (i := 1) rfl "page" none false 0)

/-- A filter that does not suspend is registered through the second handle: the first one keeps the
filter that may suspend, and the page. -/
theorem Handled.independent_of_copies :
    copies.Handled ∧ (copies.state.cached suspending.1.cache).map Prod.fst = ["page"] ∧
      let σ := copies.register 1 suspending.1 (.filter "f" fun v _ notes => (.ok v, notes))
      (∃ env f, σ.environments[0]? = some env ∧ env.filters.lookup "f" = some (.suspending f) ∧
        (σ.state.cached env.cache).map Prod.fst = ["page"]) ∧
      ∃ env, σ.environments[1]? = some env ∧ "f" ∉ env.asyncFilters ∧ σ.state.cached env.cache = [] := by
  obtain ⟨hconsistent, -, hregister⟩ := copies_handled.independent
  obtain ⟨hothers, hcaches, new, hnew, hempty⟩ := hregister 1 suspending.1
    (.filter "f" fun v _ notes => (.ok v, notes)) rfl
  have hpage : (copies.state.cached suspending.1.cache).map Prod.fst = ["page"] := by decide +kernel
  obtain ⟨f, hf⟩ := (hconsistent suspending.1 List.mem_cons_self "f").1 (by decide +kernel)
  refine ⟨copies_handled, hpage, ⟨suspending.1, f, hothers 0 (by decide), hf, ?_⟩,
    new, hnew, ?_, hempty⟩
  · rw [hcaches 0 suspending.1 (by decide) rfl]
    exact hpage
  · obtain rfl := Option.some.inj hnew
    decide +kernel

end Session

end Stencil
