/-
**A cache that cannot be told from none.**

An environment keeps the templates that it loaded under their full names.  All its loaders share the cache,
and each of them gives a requested name a full name of its own: when it is a loader's turn, the cache may
hold a template under this full name that another loader found.  So long as all loaders give a name the same
full name, what is kept under it is what the first loader has that knows the name, and no request can tell
whether it was answered from the cache.

Main definitions:

* `Stencil.Loader.fullName` — the full name that a loader gives a requested one;
* `Stencil.Loader.first` — what the first of some loaders has that knows a full name;
* `Stencil.Loader.Steady` — a loader whose answers do not change;
* `Stencil.Environment.Agreed` — an environment whose loaders are steady and agree on full names;
* `Stencil.Environment.Faithful` — a cache that keeps what the loaders have;
* `Stencil.Environment.Used` — loading and rendering, in any order.

Main results:

* `Stencil.Environment.Agreed.load_upholds` — a request is answered as the loaders would answer it;
* `Stencil.Environment.Agreed.load_cached` — **the cache cannot be told from an empty one**;
* `Stencil.Loader.memory_steady` — sources in memory are steady.
-/

import Stencil.Proofs.Session.Handles

set_option autoImplicit false

namespace Stencil

variable {α β : Type} {I : State → Prop} {env : Environment}
  {memories : Array (List (String × String))} {full name : String} {parent : Option String}

/-! ### What is known of answers and of states -/

/-- A polled action that keeps what is known of the state, and of whose answer something is known
in the state that it comes with. -/
def Poll.Upholds (I : State → Prop) (Q : Except TemplateError α → State → Prop) : Poll α → Prop
  | .done answer s => I s ∧ Q answer s
  | .wait s rest => I s ∧ ∀ t, I t → (rest t).Upholds I Q

namespace Poll.Upholds

variable {Q : Except TemplateError α → State → Prop} {p : Poll α}

theorem stays (h : p.Upholds I Q) : p.Stays I fun _ => True := by
  induction p with
  | done answer s => exact ⟨h.1, fun _ _ => trivial⟩
  | wait s rest ih => exact ⟨h.1, fun t ht => ih t (h.2 t ht)⟩

theorem bind {S : Except TemplateError β → State → Prop} {f : α → State → Poll β}
    (h : p.Upholds I Q) (hok : ∀ a s, I s → Q (.ok a) s → (f a s).Upholds I S)
    (herror : ∀ e s, Q (.error e) s → S (.error e) s) : (p.bind f).Upholds I S := by
  induction p with
  | done answer s =>
      cases answer with
      | ok a => exact hok a s h.1 h.2
      | error e => exact ⟨h.1, herror e s h.2⟩
  | wait s rest ih => exact ⟨h.1, fun t ht => ih t (h.2 t ht)⟩

theorem finish (h : p.Upholds I Q) {n : Nat} {answer : Except TemplateError α} {t : State}
    (hfinish : p.finish n = (some answer, t)) : Q answer t := by
  induction p generalizing n with
  | done given s =>
      obtain ⟨rfl, rfl⟩ : given = answer ∧ s = t := by simpa [Poll.finish] using hfinish
      exact h.2
  | wait s rest ih =>
      cases n with
      | zero => simp [Poll.finish] at hfinish
      | succ n => exact ih s (h.2 s h.1) hfinish

end Poll.Upholds

/-! ### Loaders -/

/-- A polled action that gives a known answer as long as the sources in memory stay as they are, and writes
nothing but notes. -/
def Poll.Steady (memories : Array (List (String × String))) (answer : Except TemplateError α) :
    State → Poll α → Prop
  | s, .done given s' => given = answer ∧ ∃ notes, s' = { s with notes := notes }
  | s, .wait s' rest => (∃ notes, s' = { s with notes := notes }) ∧
      ∀ t, t.memories = memories → (rest t).Steady memories answer t

theorem Poll.Steady.upholds {answer : Except TemplateError α}
    (hnotes : ∀ s notes, I s → I { s with notes := notes })
    (hmemories : ∀ s, I s → s.memories = memories) {s : State} {p : Poll α}
    (h : p.Steady memories answer s) (hs : I s) : p.Upholds I fun given _ => given = answer := by
  induction p generalizing s with
  | done given s' =>
      obtain ⟨hgiven, notes, rfl⟩ := h
      exact ⟨hnotes s notes hs, hgiven⟩
  | wait s' rest ih =>
      obtain ⟨⟨notes, rfl⟩, hrest⟩ := h
      exact ⟨hnotes s notes hs, fun t ht => ih t (hrest t (hmemories t ht)) ht⟩

namespace Loader

/-- The full name that a loader gives a requested one. -/
def fullName (loader : Loader) (name : String) : Option String → String
  | some parent => if loader.isRelative name then loader.resolve parent name else name
  | none => name

/-- What the first of some loaders has that knows a full name, or an error of a loader before it. -/
def first (answer : Loader → String → Except TemplateError (Option Source)) (full : String) :
    List Loader → Except TemplateError (Option Source)
  | [] => .ok none
  | loader :: rest =>
    match answer loader full with
    | .ok none => first answer full rest
    | given => given

/-- A loader whose answers do not change as long as the sources in memory stay as they are. -/
def Steady (memories : Array (List (String × String)))
    (answer : String → Except TemplateError (Option Source)) (loader : Loader) : Prop :=
  ∀ name s, s.memories = memories → (loader.source name s).Steady memories (answer name) s

/-- Sources in memory do not change by themselves. -/
theorem memory_steady (number : Nat) (cacheable : Bool) :
    (memory number cacheable).Steady memories fun name =>
      .ok ((find? ((memories[number]?).getD []) name).map fun text => ⟨text, name, cacheable⟩) := by
  rintro name s rfl
  exact ⟨rfl, s.notes, rfl⟩

/-- Loaders of sources in memory give a name the same full name. -/
theorem fullName_memory (number : Nat) (cacheable : Bool) :
    (memory number cacheable).fullName = (memory 0 true).fullName := rfl

end Loader

/-! ### What a cache keeps -/

namespace Environment

variable {answer : Loader → String → Except TemplateError (Option Source)}
  {naming : String → Option String → String} {s t : State}

/-- A template as a loader describes it: by its name and its source. -/
def described (s : State) (id : TemplateId) : String × String :=
  (((s.templates[id]?).getD default).name, ((s.templates[id]?).getD default).source)

/-- What a request was answered, seen from outside: a template of a name and a source, none, or an error. -/
def shown (s : State) : Except TemplateError (Option TemplateId) →
    Except TemplateError (Option (String × String)) :=
  Except.map (Option.map (described s))

/-- What the loaders alone would answer. -/
def answered (found : Except TemplateError (Option Source)) :
    Except TemplateError (Option (String × String)) :=
  found.map (Option.map fun source => (source.path, source.text))

/-- A cache that keeps, under full names, what the loaders have. -/
structure Faithful (env : Environment) (memories : Array (List (String × String)))
    (answer : Loader → String → Except TemplateError (Option Source)) (s : State) : Prop where
  memories : s.memories = memories
  known : ∀ full id, env.cached? full s = some id → id < s.templates.size
  cached : ∀ full id, env.cached? full s = some id →
    answered (Loader.first answer full env.loaders) = .ok (some (described s id))

/-- What a cache has under a full name once one of them was given a template. -/
theorem cached?_register {other : String} {id new : TemplateId}
    (h : env.cached? other { s with
      caches := s.caches.modify env.cache fun entries => register entries full new } = some id) :
    other = full ∧ id = new ∨ env.cached? other s = some id := by
  simp only [cached?, Array.getElem?_modify, if_true] at h ⊢
  cases hcache : s.caches[env.cache]? with
  | none => simp [hcache] at h
  | some entries =>
      simp only [hcache, Option.map_some, Option.getD_some] at h ⊢
      by_cases hother : other = full
      · subst hother
        rw [lookup_register_self] at h
        exact .inl ⟨rfl, (Option.some.inj h).symm⟩
      · exact .inr (lookup_register_of_ne entries new hother ▸ h)

namespace Faithful

/-- Nothing but templates, caches and sources in memory has a part in it. -/
theorem same (h : env.Faithful memories answer s) (htemplates : t.templates = s.templates)
    (hcaches : t.caches = s.caches) (hmemories : t.memories = s.memories) :
    env.Faithful memories answer t := by
  have hcached : ∀ full, env.cached? full t = env.cached? full s := fun full => by
    rw [cached?, cached?, hcaches]
  have hdescribed : described t = described s := by
    unfold described
    rw [htemplates]
  refine ⟨hmemories.trans h.memories, fun full id hid => ?_, fun full id hid => ?_⟩
  · rw [htemplates]
    exact h.known full id (hcached full ▸ hid)
  · rw [hdescribed]
    exact h.cached full id (hcached full ▸ hid)

/-- An empty cache keeps nothing. -/
theorem of_empty (hmemories : s.memories = memories) (h : ∀ full, env.cached? full s = none) :
    env.Faithful memories answer s where
  memories := hmemories
  known full id hid := by simp [h full] at hid
  cached full id hid := by simp [h full] at hid

/-- A template is described alike when another one comes behind it. -/
theorem described_newTemplate {id : TemplateId} (hid : id < s.templates.size) (name text : String) :
    described (Environment.newTemplate name text s).2 id = described s id := by
  simp only [described, Environment.newTemplate, Array.getElem?_push, if_neg (Nat.ne_of_lt hid)]

/-- A new template that is not kept. -/
theorem newTemplate (h : env.Faithful memories answer s) (name text : String) :
    env.Faithful memories answer (Environment.newTemplate name text s).2 where
  memories := h.memories
  known full id hid := Nat.lt_of_lt_of_le (h.known full id hid) (by simp [Environment.newTemplate])
  cached full id hid := by
    rw [described_newTemplate (h.known full id hid)]
    exact h.cached full id hid

/-- A template that the loaders have under a full name may be kept under it. -/
theorem keep (h : env.Faithful memories answer s) {source : Source}
    (hsource : Loader.first answer full env.loaders = .ok (some source)) :
    env.Faithful memories answer (env.keep full source s).2 ∧
      described (env.keep full source s).2 (env.keep full source s).1 = (source.path, source.text) := by
  have hnew := h.newTemplate source.path source.text
  have hself : described (Environment.newTemplate source.path source.text s).2 s.templates.size =
      (source.path, source.text) := by
    simp [described, Environment.newTemplate]
  unfold Environment.keep
  dsimp only
  split
  · refine ⟨⟨hnew.memories, fun other id hid => ?_, fun other id hid => ?_⟩, hself⟩
    · rcases cached?_register hid with ⟨rfl, rfl⟩ | hid
      · simp [Environment.newTemplate]
      · exact hnew.known other id hid
    · rcases cached?_register hid with ⟨rfl, rfl⟩ | hid
      · exact (congrArg answered hsource).trans (congrArg _ (congrArg some hself.symm))
      · exact hnew.cached other id hid
  · exact ⟨hnew, hself⟩

/-- A template keeps its description when it is compiled. -/
theorem compile (h : env.Faithful memories answer s) (id : TemplateId) (c : Compiled) (next : Nat) :
    env.Faithful memories answer { s with
      next := next
      templates := s.templates.modify id fun t => { t with compiled := some c } } := by
  have hdescribed : ∀ other, described { s with
      next := next
      templates := s.templates.modify id fun t => { t with compiled := some c } } other =
        described s other := by
    intro other
    simp only [described, Array.getElem?_modify]
    split
    · cases s.templates[other]? <;> rfl
    · rfl
  refine ⟨h.memories, fun full other hother => ?_, fun full other hother => ?_⟩
  · rw [Array.size_modify]
    exact h.known full other hother
  · rw [hdescribed]
    exact h.cached full other hother

/-- Frames, contexts and what is extended have no part in a cache. -/
theorem guarded : Guarded (env.Faithful memories answer) fun _ => True where
  same h hmemories hs := hs.same h.templates h.caches hmemories
  create h := h.same rfl rfl rfl
  extended _ _ := trivial
  setExtended _ h _ := h.same rfl rfl rfl

end Faithful

/-! ### Requests -/

/-- A loader's turn: the cache is asked under the full name that the loader gives, then the loader. -/
theorem loadFrom_cons (loader : Loader) (rest : List Loader) :
    env.loadFrom name parent (loader :: rest) =
      Action.read (env.cached? (loader.fullName name parent)) >>= fun kept =>
        kept.elim
          (loader.source (loader.fullName name parent) >>= fun found =>
            found.elim (env.loadFrom name parent rest) fun source =>
              some <$> Action.change (env.keep (loader.fullName name parent) source))
          fun id => pure (some id) := by
  cases parent <;> refine congrArg (Action.read _ >>= ·) (funext fun kept => ?_) <;>
    cases kept with
    | some id => rfl
    | none => exact congrArg (loader.source _ >>= ·) (funext fun found => by cases found <;> rfl)

/-- An environment whose loaders are steady and agree on full names, and whose filters and extensions leave
the cache as it is. -/
structure Agreed (env : Environment) (memories : Array (List (String × String)))
    (answer : Loader → String → Except TemplateError (Option Source))
    (naming : String → Option String → String) : Prop
    extends Keeping env (env.Faithful memories answer) where
  fullName : ∀ loader ∈ env.loaders, loader.fullName = naming
  steady : ∀ loader ∈ env.loaders, loader.Steady memories (answer loader)

/-- What a request comes to if the loaders alone answer it. -/
def requested (env : Environment) (answer : Loader → String → Except TemplateError (Option Source))
    (naming : String → Option String → String) (name : String) (parent : Option String)
    (ignoreMissing : Bool) : Except TemplateError (Option (String × String)) := do
  match ← answered (Loader.first answer (naming name parent) env.loaders) with
  | some description => return some description
  | none => if ignoreMissing then return none else throw (.ofCause (.templateNotFound name))

namespace Agreed

variable (h : env.Agreed memories answer naming)

include h

/-- What the first of some loaders has that knows a name is what the cache has, or what it keeps from then
on. -/
theorem loadFrom_upholds {loaders : List Loader} (hloaders : ∀ loader ∈ loaders, loader ∈ env.loaders)
    (hfirst : Loader.first answer (naming name parent) env.loaders =
      Loader.first answer (naming name parent) loaders) (hs : env.Faithful memories answer s) :
    (env.loadFrom name parent loaders s).Upholds (env.Faithful memories answer) fun found t =>
      shown t found = answered (Loader.first answer (naming name parent) env.loaders) := by
  induction loaders generalizing s with
  | nil => exact ⟨hs, by rw [hfirst]; rfl⟩
  | cons loader rest ih =>
      obtain ⟨hloader, hrest⟩ := List.forall_mem_cons.1 hloaders
      rw [loadFrom_cons, h.fullName loader hloader]
      change Poll.Upholds _ _ (((env.cached? (naming name parent) s).elim _ _ : Action _) s)
      cases hcached : env.cached? (naming name parent) s with
      | some id => exact ⟨hs, (hs.cached _ id hcached).symm⟩
      | none =>
          have hsource := (h.steady loader hloader (naming name parent) s hs.memories).upholds
            (fun _ _ hs => Faithful.same hs rfl rfl rfl) (fun _ hs => hs.memories) hs
          refine hsource.bind (fun found t ht hfound => ?_) fun e t he => ?_
          · cases found with
            | some source =>
                have hgives : Loader.first answer (naming name parent) env.loaders =
                    .ok (some source) := by
                  rw [hfirst, Loader.first, ← hfound]
                obtain ⟨hkept, hself⟩ := ht.keep hgives
                exact ⟨hkept, by rw [hgives]; exact congrArg (fun d => Except.ok (some d)) hself⟩
            | none => exact ih hrest (by rw [hfirst, Loader.first, ← hfound]) ht
          · rw [hfirst, Loader.first, ← he]
            rfl

/-- A request is answered as the loaders would answer it. -/
theorem load_upholds (name : String) (parent : Option String) (ignoreMissing : Bool)
    (hs : env.Faithful memories answer s) :
    (env.load name parent ignoreMissing s).Upholds (env.Faithful memories answer) fun found t =>
      shown t found = env.requested answer naming name parent ignoreMissing := by
  unfold requested
  refine (h.loadFrom_upholds (fun _ hl => hl) rfl hs).bind (fun found t ht hfound => ?_) fun e t he => ?_
  · rw [← hfound]
    cases found with
    | some id => exact ⟨ht, rfl⟩
    | none => cases ignoreMissing <;> exact ⟨ht, rfl⟩
  · rw [← he]
    rfl

/-- Rendering keeps the cache faithful. -/
theorem keeps :
    ((Likeness.within (env.Faithful memories answer)).lockstep fun _ => False).Keeps env env := by
  refine h.toKeeping.keeps Faithful.guarded (fun id _ s hs => ?_) fun name parent ignoreMissing s hs =>
    (h.load_upholds name parent ignoreMissing hs).stays.mono fun _ _ _ _ => trivial
  rw [Policy.Basic.compile_eq]
  split
  · exact ⟨hs, fun _ _ => trivial⟩
  · split
    · exact ⟨hs.compile id _ _, fun _ _ => trivial⟩
    · exact ⟨hs, fun _ he => nomatch he⟩

theorem renderEntry_faithful (depth : Nat) (entry : Entry) (data : Value)
    (hs : env.Faithful memories answer s) (n : Nat) :
    env.Faithful memories answer ((env.renderEntry depth entry data s).finish n).2 := by
  have hentry : ((Likeness.within (env.Faithful memories answer)).lockstep fun _ => False).Acts ()
      (env.enter entry) (env.enter entry) fun _ id id' => id' = id := by
    cases entry with
    | template id => exact .pure fun _ _ => rfl
    | named name => exact h.keeps.toServes.enter_named name
    | source text =>
        exact Likeness.within_acts (Q := fun _ => True)
          (Action.Stays.change (f := newTemplate "<string>" text) fun s hs =>
            ⟨Faithful.newTemplate hs _ _, trivial⟩) fun _ _ => rfl
  have hrun := (Evaluator.Mirrored.tied h.keeps (fun _ _ => within_reaches) depth).renderWith
    h.keeps.toServes (fun hs => ⟨congrArg startRun hs.1, Faithful.same hs.2 rfl rfl rfl⟩) hentry
    (.refl (fun _ => rfl) data)
  exact (Likeness.within_finish hrun (fun _ _ h => h) hs n).2

end Agreed

/-! ### Any number of requests -/

/-- What is done with an environment: templates are loaded and rendered, in any order, and nothing is
registered. -/
inductive Used (env : Environment) (s : State) : State → Prop
  | unused : Used env s s
  | load {t : State} (h : Used env s t) (name : String) (parent : Option String) (ignoreMissing : Bool)
    (n : Nat) : Used env s ((env.load name parent ignoreMissing t).finish n).2
  | render {t : State} (h : Used env s t) (depth : Nat) (entry : Entry) (data : Value) (n : Nat) :
    Used env s ((env.renderEntry depth entry data t).finish n).2

theorem Used.faithful (h : env.Agreed memories answer naming) (hs : env.Faithful memories answer s)
    (hused : env.Used s t) : env.Faithful memories answer t := by
  induction hused with
  | unused => exact hs
  | load _ name parent ignoreMissing n ih =>
      exact ((h.load_upholds name parent ignoreMissing ih).stays.finish n).1
  | render _ depth entry data n ih => exact h.renderEntry_faithful depth entry data ih n

/-- The cache that was dropped is empty. -/
theorem cached?_invalidateCache (full : String) (s : State) :
    env.cached? full (env.invalidateCache s) = none := by
  simp only [cached?, invalidateCache, Array.getElem?_modify, if_true]
  cases s.caches[env.cache]? <;> rfl

/-- **The cache cannot be told from an empty one.**  Whatever was loaded and rendered before, a request gets
the answer that it would get if the cache were dropped first: a template of the same name and source, none,
or the same error. -/
theorem Agreed.load_cached (h : env.Agreed memories answer naming) (hmemories : s.memories = memories)
    (hempty : ∀ full, env.cached? full s = none) (hused : env.Used s t) (name : String)
    (parent : Option String) (ignoreMissing : Bool) {m n : Nat} {u v : State}
    {found foundAnew : Except TemplateError (Option TemplateId)}
    (hload : (env.load name parent ignoreMissing t).finish m = (some found, u))
    (hanew : (env.load name parent ignoreMissing (env.invalidateCache t)).finish n =
      (some foundAnew, v)) : shown u found = shown v foundAnew := by
  have ht := hused.faithful h (.of_empty hmemories hempty)
  have hdropped : env.Faithful memories answer (env.invalidateCache t) :=
    .of_empty ht.memories fun full => cached?_invalidateCache full t
  calc shown u found
      = env.requested answer naming name parent ignoreMissing :=
        (h.load_upholds name parent ignoreMissing ht).finish hload
    _ = shown v foundAnew := ((h.load_upholds name parent ignoreMissing hdropped).finish hanew).symm

/-- Loaders of sources in memory are steady and agree on full names, and what is built in leaves the cache as
it is. -/
theorem agreed_of_memory (memories : Array (List (String × String)))
    (hloaders : ∀ loader ∈ env.loaders, ∃ number cacheable, loader = Loader.memory number cacheable)
    (hfilters : ∀ e ∈ env.filters, ∃ f, e.2 = .immediate f) (hextensions : env.extensions = []) :
    env.Agreed memories (fun loader name =>
      ((loader.source name).now { State.initial with memories := memories }).1)
        (Loader.memory 0 true).fullName where
  filter e he v args s hs := by
    obtain ⟨f, hf⟩ := hfilters e he
    rw [hf]
    exact ⟨Faithful.same hs rfl rfl rfl, fun _ _ => trivial⟩
  tag x hx := by simp [hextensions] at hx
  fullName loader hloader := by
    obtain ⟨number, cacheable, rfl⟩ := hloaders loader hloader
    exact Loader.fullName_memory number cacheable
  steady loader hloader := by
    obtain ⟨number, cacheable, rfl⟩ := hloaders loader hloader
    exact Loader.memory_steady number cacheable

/-! ### Loaders that disagree -/

/-- A loader that takes no name to be relative, before one that does. -/
def disagreeing : Environment × State :=
  let (env, s) := create State.initial
  let s := { s with memories := #[[("pages/nav", "first")], [("pages/nav", "second")]] }
  let (env, s) := env.addLoader { Loader.memory 0 true with isRelative := fun _ => false } s
  env.addLoader (Loader.memory 1 true) s

/-- Loaders that do not agree on full names give a cache that can be told from an empty one: what the second
one found for a relative name is kept under a full name that the first one would have answered. -/
theorem load_cached_of_disagreeing :
    let env := disagreeing.1
    let used := ((env.load "./nav" (some "pages/home") false disagreeing.2).finish 0).2
    let kept := (env.load "pages/nav" none false used).finish 0
    let anew := (env.load "pages/nav" none false (env.invalidateCache used)).finish 0
    (kept.1.map fun found => (shown kept.2 found).toOption) = some (some (some ("pages/nav", "second"))) ∧
      (anew.1.map fun found => (shown anew.2 found).toOption) =
        some (some (some ("pages/nav", "first"))) := by
  decide +kernel

end Environment

end Stencil
