/-
**Hosts that register nothing of their own.**

A new environment knows only what is built in.  With sources in memory beside it, this is the smallest
host that renders templates which name each other.

Main definitions:

* `Stencil.Environment.ofMemory` — a new environment with sources in memory;
* `Stencil.Environment.Bare` — an environment with nothing beside what is built in.

Main results:

* `Stencil.Environment.ofMemory_bare` — that is all such an environment has;
* `Stencil.Value.range_admitted`, `Stencil.Builtin.filter_admitted` — what is built in gives values
  that may be held.
-/

import Stencil.Proofs.Evaluation.Runs

set_option autoImplicit false

namespace Stencil

variable {π : Policy}

/-! ### What is built in -/

/-- The function that is built in gives numbers only. -/
theorem Value.range_admitted {args : CallArgs} {v : Value} (h : Value.range args = .ok v) :
    v.Admitted π := by
  have hlimit : ∀ (count : Nat) (numbers : List Int), (if rangeLimit < count
      then .error (TemplateError.ofCause (.rangeLength count rangeLimit))
      else .ok (array (numbers.map int))) = Except.ok v → v.Admitted π := by
    intro count numbers h
    split at h
    · cases h
    · cases h
      refine .array fun w hw => ?_
      obtain ⟨n, _, rfl⟩ := List.mem_map.1 hw
      exact .plain rfl
  have hrange : ∀ start stop step, rangeOf start stop step = .ok v → v.Admitted π := by
    intro start stop step h
    unfold rangeOf at h
    split at h
    · cases h
    · exact hlimit _ _ h
  unfold range at h
  cases hints : integers args.positional with
  | error e =>
      rw [hints] at h
      cases h
  | ok ints =>
      rw [hints] at h
      simp only [bind, Except.bind] at h
      split at h
      · exact hrange _ _ _ h
      · exact hrange _ _ _ h
      · exact hrange _ _ _ h
      · cases h

/-- What it refuses is an ordinary error. -/
theorem Value.range_ordinary {args : CallArgs} {e : TemplateError} (h : Value.range args = .error e) :
    e.cause.isOrdinary = true := by
  have hlimit : ∀ (count : Nat) (v : Value), (if rangeLimit < count
      then .error (TemplateError.ofCause (.rangeLength count rangeLimit)) else .ok v) =
        Except.error e → e.cause.isOrdinary = true := by
    intro count v h
    split at h
    · cases h
      rfl
    · cases h
  have hrange : ∀ start stop step, rangeOf start stop step = .error e →
      e.cause.isOrdinary = true := by
    intro start stop step h
    unfold rangeOf at h
    split at h
    · cases h
      rfl
    · exact hlimit _ _ h
  have hints : ∀ {vs : List Value}, integers vs = .error e → e.cause.isOrdinary = true := by
    intro vs
    induction vs with
    | nil => exact fun h => by cases h
    | cons v rest ih =>
        intro h
        unfold integers at h
        split at h
        · cases hrest : integers rest with
          | ok ints =>
              rw [hrest] at h
              cases h
          | error e' =>
              rw [hrest] at h
              cases h
              exact ih hrest
        · cases h
          rfl
  unfold range at h
  cases hargs : integers args.positional with
  | error e' =>
      rw [hargs] at h
      cases h
      exact hints hargs
  | ok ints =>
      rw [hargs] at h
      simp only [bind, Except.bind] at h
      split at h
      · exact hrange _ _ _ h
      · exact hrange _ _ _ h
      · exact hrange _ _ _ h
      · cases h
        rfl

/-- What a test that is built in refuses is an ordinary error. -/
theorem Builtin.test_ordinary {name : String} {t : Test} (ht : Builtin.tests.lookup name = some t)
    {v : Value} {args : List Value} {e : TemplateError} (h : t v args = .error e) :
    e.cause.isOrdinary = true := by
  have hwith : ∀ (test argument : String) (f : Value → Value → Bool),
      checkWith test argument f v args = .error e → e.cause.isOrdinary = true := by
    intro test argument f h
    unfold checkWith at h
    split at h
    · cases h
    · cases h
      rfl
  have hmem := Named.mem_of_get? ht
  simp only [tests, List.mem_cons, List.not_mem_nil, or_false, Prod.mk.injEq] at hmem
  rcases hmem with ⟨_, rfl⟩ | ⟨_, rfl⟩ | ⟨_, rfl⟩ | ⟨_, rfl⟩ | ⟨_, rfl⟩ | ⟨_, rfl⟩ | ⟨_, rfl⟩ |
    ⟨_, rfl⟩ | ⟨_, rfl⟩ | ⟨_, rfl⟩ | ⟨_, rfl⟩ | ⟨_, rfl⟩ | ⟨_, rfl⟩ | ⟨_, rfl⟩ | ⟨_, rfl⟩ |
    ⟨_, rfl⟩ | ⟨_, rfl⟩ | ⟨_, rfl⟩ | ⟨_, rfl⟩ | ⟨_, rfl⟩ <;>
    first | exact hwith _ _ _ h | cases h

/-- A built-in filter computes a value, and notes nothing down. -/
theorem Builtin.lookup_immediate {name : String} {f : Filter}
    (h : (Builtin.filters.map fun (name, g) =>
      (name, Filter.immediate fun v _ notes => (.ok (g v), notes))).lookup name = some f) :
    ∃ g, Builtin.filters.lookup name = some g ∧
      f = .immediate fun v _ notes => (.ok (g v), notes) := by
  have hlookup := Named.lookup_map
    (fun g : Value → Value => Filter.immediate fun v _ notes => (.ok (g v), notes))
    Builtin.filters name
  obtain ⟨g, hg, rfl⟩ := Option.map_eq_some_iff.1 (hlookup.symm.trans h)
  exact ⟨g, hg, rfl⟩

/-- A built-in filter makes safe texts, and keeps all others. -/
theorem Builtin.filter_admitted (htext : ∀ s, π.text s) {name : String} {f : Value → Value}
    (hf : Builtin.filters.lookup name = some f) {v : Value} (hv : v.Admitted π) :
    (f v).Admitted π := by
  have hmarked : v.markedSafe.Admitted π := by
    unfold Value.markedSafe
    split
    · exact hv
    · exact .safe (htext _)
  have hescaped : v.escaped.Admitted π := by
    unfold Value.escaped
    split
    · exact hv
    · exact .safe (htext _)
  simp only [Builtin.filters, List.lookup_cons, List.lookup_nil] at hf
  split at hf
  · cases hf
    exact hmarked
  · split at hf
    · cases hf
      exact hescaped
    · split at hf
      · cases hf
        exact hescaped
      · cases hf

namespace Environment

/-- An environment with nothing beside what is built in and sources in memory, before anything was
rendered. -/
structure Bare (env : Environment) (s : State) : Prop where
  loaders : ∀ loader ∈ env.loaders, ∃ number cacheable, loader = .memory number cacheable
  filters : env.filters = Builtin.filters.map fun (name, f) =>
    (name, .immediate fun v _ notes => (.ok (f v), notes))
  globals : ∀ m ∈ env.globals, m.2.isPlain = true
  extensions : env.extensions = []
  functions : ∀ f ∈ s.functions, f = Value.range
  templates : s.templates = #[]

/-- A new environment, with sources in memory. -/
def ofMemory (sources : List (String × String)) : Environment × State :=
  let (number, s) := Loader.newMemory .initial
  let s := sources.foldl (fun s (name, text) => Loader.insert number name text s) s
  let (env, s) := create s
  addLoader env (Loader.memory number true) s

theorem ofMemory_bare (sources : List (String × String)) :
    (ofMemory sources).1.Bare (ofMemory sources).2 := by
  have hinsert : ∀ (sources : List (String × String)) (number : Nat) (s : State),
      let s' := sources.foldl (fun s (name, text) => Loader.insert number name text s) s
      s'.functions = s.functions ∧ s'.templates = s.templates := by
    intro sources number
    induction sources with
    | nil => exact fun s => ⟨rfl, rfl⟩
    | cons source rest ih => exact fun s => ih _
  obtain ⟨hfunctions, htemplates⟩ := hinsert sources 0 (Loader.newMemory .initial).2
  exact {
    loaders := fun loader h => ⟨0, true, List.mem_singleton.1 h⟩
    filters := rfl
    globals := fun m hm => by
      obtain rfl := List.mem_singleton.1 hm
      rfl
    extensions := rfl
    functions := fun f hf => by
      rcases Array.mem_push.1 hf with hf | rfl
      · have hnone : f ∈ (Loader.newMemory .initial).2.functions :=
          Eq.mp (congrArg (f ∈ ·) hfunctions) hf
        simp [Loader.newMemory, State.initial] at hnone
      · rfl
    templates := htemplates }

namespace Bare

variable {env : Environment} {s : State}

/-- A loader of sources in memory has no access to what a run holds. -/
theorem apart (h : env.Bare s) (fails : Cause → Prop) :
    ∀ loader ∈ env.loaders, ∀ name s,
      (loader.source name s).Apart (fun _ => True) fails s := by
  intro loader hloader name s
  obtain ⟨number, cacheable, rfl⟩ := h.loaders loader hloader
  exact ⟨.refl s, fun _ _ => trivial, fun _ he => by cases he⟩

/-- Nor has a filter that is built in. -/
theorem filter_apart (h : env.Bare s) (htext : ∀ s, π.text s) (fails : Cause → Prop)
    {name : String} {f : Filter} (hf : env.filters.lookup name = some f) (v : Value)
    (args : List Value) (s : State) :
    (f.apply v args s).Apart (fun u => v.Admitted π → (∀ a ∈ args, a.Admitted π) → u.Admitted π)
      fails s := by
  obtain ⟨g, hg, rfl⟩ := Builtin.lookup_immediate (h.filters ▸ hf)
  refine ⟨.refl s, fun u hu hv _ => ?_, fun _ he => by cases he⟩
  cases hu
  exact Builtin.filter_admitted htext hg hv

end Bare

end Environment

end Stencil
