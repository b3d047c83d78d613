/-
**Whose tree a template has.**

A template is compiled once, by the environment that is the first to need its tree, and what this
environment has registered shapes the tree.  Here it is followed what an environment does to the
templates while it loads, compiles and renders: it compiles only some of them, and what it keeps in
its cache is new.  Templates that others keep and that are not compiled yet stay as they are.

Main definitions:

* `Stencil.Environment.tree`, `Stencil.Environment.Builds` — the tree that an environment makes of a
  template;
* `Stencil.Environment.SameShape` — environments that make the same trees;
* `Stencil.Environment.Discreet` — an environment of a host that leaves the templates alone;
* `Stencil.Environment.Keeping` — an environment of a host that keeps what is known of a state;
* `Stencil.Environment.Moves` — what an environment may do to the templates;
* `Stencil.Evaluator.anew` — an evaluator that parses and transforms each template anew.

Main results:

* `Stencil.Environment.Keeping.keeps`, `Stencil.Environment.Discreet.keeps` — rendering keeps what
  loading and compiling keep;
* `Stencil.Environment.Discreet.anew` — **rendering with the trees at hand is rendering with trees
  made anew**, where each tree at hand was made by the environment.
-/

import Stencil.Proofs.Mirror.Hosts
import Stencil.Proofs.Mirror.Within

set_option autoImplicit false

namespace Stencil

variable {env other : Environment} {I : State → Prop} {T : TemplateId → Prop} {α : Type}

/-! ### Trees that an environment makes -/

namespace Environment

/-- What the extensions contribute to reading templates. -/
def readers (env : Environment) : List TagReader := env.extensions.map Extension.toTagReader

/-- The tree of a template, parsed and transformed with what is registered. -/
def tree (env : Environment) (t : Template) : Except TemplateError Node := do
  return (Node.prepared env.asyncFilters (← Node.ofSource env.config env.readers t.source)).result

/-- The environment compiles a template so. -/
def Builds (env : Environment) (t : Template) (c : Compiled) : Prop :=
  ∃ number, Template.build env.config env.readers env.asyncFilters t.name t.source number = .ok c

/-- What is rendered of a template is its tree. -/
theorem Builds.tree {t : Template} {c : Compiled} (h : env.Builds t c) : env.tree t = .ok c.root := by
  obtain ⟨number, h⟩ := h
  obtain ⟨root, hread, hprepared, -⟩ := Template.build_eq_ok_iff.1 h
  rw [Environment.tree, hread, hprepared]
  rfl

/-- Environments with the same configuration, tags and async filters. -/
structure SameShape (env other : Environment) : Prop where
  config : other.config = env.config
  readers : other.readers = env.readers
  asyncFilters : other.asyncFilters = env.asyncFilters

namespace SameShape

theorem refl (env : Environment) : env.SameShape env := ⟨rfl, rfl, rfl⟩

theorem builds (h : env.SameShape other) {t : Template} {c : Compiled} (hc : env.Builds t c) :
    other.Builds t c := by
  obtain ⟨number, hc⟩ := hc
  exact ⟨number, by rw [h.config, h.readers, h.asyncFilters]; exact hc⟩

end SameShape

/-- The template of a number, if it is compiled, has the tree that the environment makes of it. -/
def Owns (env : Environment) (s : State) (id : TemplateId) : Prop :=
  ∀ t c, s.templates[id]? = some t → t.compiled = some c → env.Builds t c

end Environment

/-! ### Hosts that leave the templates alone -/

/-- A polled action that changes no template, no cache and no place for an extended one. -/
def Poll.Aside : State → Poll α → Prop
  | s, .done _ s' => s.SameTemplates s'
  | s, .wait s' rest => s.SameTemplates s' ∧ ∀ t, (rest t).Aside t

/-- An action that changes no template, no cache and no place for an extended one. -/
def Action.Aside (x : Action α) : Prop := ∀ s, (x s).Aside s

theorem Poll.Aside.stays (hI : ∀ {s s' : State}, s.SameTemplates s' → I s → I s') {p : Poll α}
    {s : State} (h : p.Aside s) (hs : I s) : p.Stays I fun _ => True := by
  induction p generalizing s with
  | done answer s' => exact ⟨hI h hs, fun _ _ => trivial⟩
  | wait s' rest ih => exact ⟨hI h.1 hs, fun t ht => ih t (h.2 t) ht⟩

/-- An extension that changes templates and caches only by rendering the bodies of its tags: with
bodies that do the same it does the same, and it keeps what they keep. -/
def Extension.Discreet (x : Extension) : Prop :=
  ∀ I : State → Prop, (∀ {s s' : State}, s.SameTemplates s' → I s → I s') →
    ∀ context method args content content', List.Forall₂ (fun body body' =>
      ((Likeness.within I).lockstep fun _ => False).Acts () body body' fun _ text text' => text' = text)
        content content' → ((Likeness.within I).lockstep fun _ => False).Acts ()
          (x.run context method args content) (x.run context method args content')
            fun _ v v' => v' = v

namespace Environment

/-- An environment of a host that leaves templates and caches alone. -/
structure Discreet (env : Environment) : Prop where
  source : ∀ loader ∈ env.loaders, ∀ name, (loader.source name).Aside
  filter : ∀ e ∈ env.filters, ∀ v args, (e.2.apply v args).Aside
  tag : ∀ x ∈ env.extensions, x.Discreet

/-- An environment of a host that keeps what is known of a state: a filter does so, and an extension
if the bodies of its tags do. -/
structure Keeping (env : Environment) (I : State → Prop) : Prop where
  filter : ∀ e ∈ env.filters, ∀ v args, (e.2.apply v args).Stays I fun _ => True
  tag : ∀ x ∈ env.extensions, ∀ context method args content content', List.Forall₂ (fun body body' =>
    ((Likeness.within I).lockstep fun _ => False).Acts () body body' fun _ text text' => text' = text)
      content content' → ((Likeness.within I).lockstep fun _ => False).Acts ()
        (x.run context method args content) (x.run context method args content') fun _ v v' => v' = v

theorem Discreet.keeping (henv : env.Discreet)
    (hI : ∀ {s s' : State}, s.SameTemplates s' → I s → I s') : env.Keeping I where
  filter e he v args s hs := (henv.filter e he v args s).stays hI hs
  tag x hx := henv.tag x hx I hI

/-! ### What loading and compiling keep -/

/-- Loading keeps what is known, if the loaders do, which find only some sources, and if these are kept
so. -/
theorem load_stays_of {F : Source → Prop}
    (hcached : ∀ {s : State} {name : String} {id : TemplateId}, I s → env.cached? name s = some id → T id)
    (hsource : ∀ loader ∈ env.loaders, ∀ name,
      (loader.source name).Stays I fun found => ∀ source, found = some source → F source)
    (hkeep : ∀ {s : State} (name : String) {source : Source}, F source → I s →
      I (env.keep name source s).2 ∧ T (env.keep name source s).1)
    (name : String) (parent : Option String) (ignoreMissing : Bool) :
    (env.load name parent ignoreMissing).Stays I fun found => ∀ id, found = some id → T id := by
  -- by induction on the loaders that were not asked yet
  have hfrom : ∀ loaders : List Loader, (∀ loader ∈ loaders, loader ∈ env.loaders) →
      (env.loadFrom name parent loaders).Stays I fun found => ∀ id, found = some id → T id := by
    intro loaders hloaders
    induction loaders with
    | nil => exact .pure fun _ h => nomatch h
    | cons loader rest ih =>
        unfold loadFrom
        refine Action.Stays.bind (Q := fun found => ∀ id, found = some id → T id)
          (.read fun s hs id hid => hcached hs hid) fun found hfound => ?_
        cases found with
        | some id => exact .pure hfound
        | none =>
            refine (hsource loader (hloaders loader List.mem_cons_self) _).bind fun found hfound => ?_
            cases found with
            | none => exact ih fun l hl => hloaders l (List.mem_cons_of_mem _ hl)
            | some source =>
                refine Action.Stays.bind (Q := T) (.change fun s hs => hkeep _ (hfound source rfl) hs)
                  fun id hid => .pure fun _ heq => ?_
                cases heq
                exact hid
  refine (hfrom env.loaders fun _ h => h).bind fun found hfound => ?_
  cases found with
  | some id => exact .pure hfound
  | none =>
      dsimp only
      split
      · exact .pure fun _ h => nomatch h
      · exact .fail _

/-- What is known of a state is kept when the environment keeps a template in its cache, and when it
compiles one of some templates; what it finds in its cache is one of these. -/
structure Tends (env : Environment) (I : State → Prop) (T : TemplateId → Prop) : Prop where
  same : ∀ {s s' : State}, s.SameTemplates s' → I s → I s'
  cached : ∀ {s : State} {name : String} {id : TemplateId}, I s → env.cached? name s = some id → T id
  keep : ∀ {s : State} (name : String) (source : Source), I s →
    I (env.keep name source s).2 ∧ T (env.keep name source s).1
  compile : ∀ {s : State} {id : TemplateId} {t : Template} {c : Compiled} {next : Nat}, I s → T id →
    s.templates[id]? = some t → t.compiled = none → env.Builds t c →
      I { s with next := next, templates := s.templates.modify id fun t => { t with compiled := some c } }

namespace Tends

variable (h : env.Tends I T) (henv : env.Discreet)

include h

/-- Compiling one of the templates. -/
theorem compile_stays {id : TemplateId} (hid : T id) : (env.compile id).Stays I fun _ => True := by
  intro s hs
  rw [Policy.Basic.compile_eq]
  split
  · exact ⟨hs, fun _ _ => trivial⟩
  · rename_i hnone
    split
    · rename_i c hbuild
      refine ⟨?_, fun _ _ => trivial⟩
      cases ht : s.templates[id]? with
      | none =>
          -- no template has the number, so nothing is changed but the next number
          refine h.same (s := s) ⟨Array.ext_getElem? fun i => ?_, rfl, rfl⟩ hs
          rw [Array.getElem?_modify]
          split
          · rename_i heq
            rw [← heq, ht, Option.map_none]
          · rfl
      | some t =>
          rw [ht, Option.getD_some] at hnone hbuild
          exact h.compile hs hid ht hnone ⟨_, hbuild⟩
    · exact ⟨hs, fun _ he => nomatch he⟩

/-- Loading a template gives one of the templates, if the loaders keep what is known. -/
theorem load_stays_of_source
    (hsource : ∀ loader ∈ env.loaders, ∀ name, (loader.source name).Stays I fun _ => True)
    (name : String) (parent : Option String) (ignoreMissing : Bool) :
    (env.load name parent ignoreMissing).Stays I fun found => ∀ id, found = some id → T id :=
  load_stays_of (F := fun _ => True) h.cached
    (fun loader hloader name s hs => (hsource loader hloader name s hs).mono fun _ _ _ _ => trivial)
    (fun name source _ hs => h.keep name source hs) name parent ignoreMissing

include henv

/-- Loading a template gives one of the templates. -/
theorem load_stays (name : String) (parent : Option String) (ignoreMissing : Bool) :
    (env.load name parent ignoreMissing).Stays I fun found => ∀ id, found = some id → T id :=
  h.load_stays_of_source
    (fun loader hloader name s hs => (henv.source loader hloader name s).stays h.same hs) name parent
    ignoreMissing

theorem loadRequired_stays (name : String) (parent : Option String) :
    (env.loadRequired name parent).Stays I T := by
  refine (load_stays h henv name parent false).bind fun found hfound => ?_
  cases found with
  | some id => exact .pure (hfound id rfl)
  | none => exact .fail _

end Tends

/-- Rendering keeps what is known of a state, if the host, loading and compiling do. -/
theorem Keeping.keeps (henv : env.Keeping I) (hI : Guarded I T)
    (hcompile : ∀ id, T id → (env.compile id).Stays I fun _ => True)
    (hload : ∀ name parent ignoreMissing,
      (env.load name parent ignoreMissing).Stays I fun found => ∀ id, found = some id → T id) :
    ((Likeness.within I).lockstep fun _ => False).Keeps env env T :=
  keeps_of_node_eq rfl (Likeness.within_store hI)
    (fun id hid => Likeness.within_acts (hcompile id hid) fun c _ => .refl (fun _ => rfl) c)
    (fun name parent ignoreMissing => Likeness.within_acts (hload name parent ignoreMissing)
      fun _ hfound => ⟨rfl, hfound⟩)
    (fun e he _ v args => Likeness.within_acts (henv.filter e he v args)
      fun v _ => .refl (fun _ => rfl) v)
    fun x hx => henv.tag x hx

/-- Rendering keeps what loading and compiling keep. -/
theorem Discreet.keeps (henv : env.Discreet) (h : env.Tends I T) (hI : Guarded I T) :
    ((Likeness.within I).lockstep fun _ => False).Keeps env env T :=
  (henv.keeping h.same).keeps hI (fun _ hid => h.compile_stays hid) (h.load_stays henv)

/-- All nodes are equal. -/
theorem within_reaches {ev ev' : Evaluator} :
    ((Likeness.within I).lockstep fun _ => False).Reaches env env ev ev' := by
  intro n _ hnode
  obtain rfl := hnode
  exact .inl (.refl (fun _ => rfl) (fun _ => rfl) n)

/-! ### Trees made anew -/

/-- The tree of a template, made anew once the template is compiled. -/
def remade (env : Environment) (id : TemplateId) : Action Node := do
  let _ ← env.compile id
  Action.ofExcept (env.tree (← template id))

end Environment

/-- A template in a context, then the template it extends, each with its tree made anew. -/
def Render.rootAnew (env : Environment) (ev : Evaluator) : TemplateId → ContextId → FrameId →
    List String → Action String :=
  Render.rootBy (fun scope frame id => do ev.exec scope (← env.remade id) frame) ev

/-- The actions of an evaluator that parses and transforms every template that it renders anew, with
what is registered now. -/
def Evaluator.anew (env : Environment) : Nat → Evaluator
  | 0 => exhausted
  | depth + 1 => {
      exec := fun scope n frame s => ((anew env depth).step env).exec scope n frame s
      eval := fun scope n frame s => ((anew env depth).step env).eval scope n frame s
      root := fun id context frame lineage s =>
        Render.rootAnew env (anew env depth) id context frame lineage s }

namespace Environment

/-- Compiling a template gives the tree that the environment makes of it, if what is compiled already
was made by the environment. -/
theorem compile_builds {s : State} {id : TemplateId} (h : env.Owns s id) :
    (∃ c t, env.compile id s = .done (.ok c) t ∧ env.Builds ((t.templates[id]?).getD default) c) ∨
      ∃ e, env.compile id s = .done (.error e) s := by
  rw [Policy.Basic.compile_eq]
  split
  · rename_i c hc
    cases ht : s.templates[id]? with
    | none =>
        rw [ht] at hc
        cases hc
    | some t =>
        rw [ht] at hc
        exact .inl ⟨c, s, rfl, by rw [ht]; exact h t c ht hc⟩
  · split
    · rename_i c hbuild
      refine .inl ⟨c, _, rfl, ?_⟩
      rw [Array.getElem?_modify, if_pos rfl]
      -- marking the template as compiled changes neither its name nor its source
      cases ht : s.templates[id]? <;> rw [ht] at hbuild <;> exact ⟨_, hbuild⟩
    · exact .inr ⟨_, rfl⟩

/-- The tree made anew is the tree at hand, if that was made by the environment. -/
theorem Tends.remade_acts (h : env.Tends I T) (hown : ∀ {s id}, I s → T id → env.Owns s id)
    {id : TemplateId} (hid : T id) :
    ((Likeness.within I).lockstep fun _ => False).Acts () (env.compile id) (env.remade id)
      fun _ c tree => tree = c.root := by
  rintro _ s s' - ⟨rfl, hs⟩
  have hstays := h.compile_stays hid s' hs
  have hremade : env.remade id s' = (env.compile id s').bind fun _ =>
    Environment.template id >>= fun t => Action.ofExcept (env.tree t) := rfl
  rw [hremade]
  rcases compile_builds (hown hs hid) with ⟨c, t, hcompile, hbuilds⟩ | ⟨e, hcompile⟩
  · rw [hcompile] at hstays ⊢
    change Likeness.Lockstep _ _ _ _ _ (Poll.done (env.tree ((t.templates[id]?).getD default)) t)
    rw [hbuilds.tree]
    exact .inr ⟨_, t, (), rfl, trivial, ⟨rfl, hstays.1⟩, .ok rfl⟩
  · rw [hcompile] at hstays ⊢
    exact .inr ⟨_, s', (), rfl, trivial, ⟨rfl, hs⟩, .error rfl⟩

/-- Rendering with the trees at hand is rendering with trees made anew, where each tree at hand was
made by the environment. -/
theorem Discreet.anew (henv : env.Discreet) (h : env.Tends I T) (hI : Guarded I T)
    (hown : ∀ {s id}, I s → T id → env.Owns s id) (depth : Nat) :
    Evaluator.Mirrored ((Likeness.within I).lockstep fun _ => False) (.tied env depth)
      (.anew env depth) T := by
  have hM := henv.keeps h hI
  induction depth with
  | zero => exact .exhausted
  | succ depth ih =>
      have hstep := Evaluator.Mirrored.step hM ih within_reaches
      refine ⟨hstep.exec, hstep.eval, fun {w id id'} template context lineage hT hid => ?_⟩
      refine Render.rootBy_mirrored
        (fun scope frame id => do
          let c ← env.compile id
          (Evaluator.tied env depth).exec scope c.root frame)
        (fun scope frame id => do (Evaluator.anew env depth).exec scope (← env.remade id) frame)
        (Likeness.within_store hI) ih
        (fun {w scope scope' id id'} template hT hscope hid => ?_) hid template hT context lineage
      refine (h.remade_acts hown hT).bind fun _ c tree hq htree => ?_
      obtain rfl : tree = c.root := htree
      exact ih.exec hscope rfl hid

end Environment

end Stencil
