/-
**What a run only adds to.**

A run makes frames, contexts, places for extended templates and templates, and never takes one
back.  What a frame lies inside of, the globals of a context, and the name, source and tree of a
template stay as they are.  None of this depends on what is rendered, so it is stated of actions as
such: an action climbs if every state it reaches has grown from the one before, whatever others do
to the state in between.

Main definitions:

* `Stencil.Extends` — an array that got longer, its entries changed in some allowed way;
* `Stencil.State.Grows` — a state after another one of the same run;
* `Stencil.Poll.Climbs`, `Stencil.Action.Climbs` — actions that only let the state grow.

Main results:

* `Stencil.State.Grows.trans` — growth accumulates;
* `Stencil.Action.Climbs.bind`, `Stencil.Action.Climbs.join` — actions made of climbing actions
  climb.
-/

import Stencil.Render.Run

set_option autoImplicit false

namespace Stencil

/-! ### Arrays that get longer -/

/-- An array got longer, and its entries are related to those that stood there before. -/
def Extends {α : Type} (R : α → α → Prop) (xs ys : Array α) : Prop :=
  ∀ (i : Nat) (x : α), xs[i]? = some x → ∃ y, ys[i]? = some y ∧ R x y

namespace Extends

variable {α : Type} {R : α → α → Prop}

theorem refl (hR : ∀ x, R x x) (xs : Array α) : Extends R xs xs :=
  fun _ x h => ⟨x, h, hR x⟩

theorem trans (hR : ∀ x y z, R x y → R y z → R x z) {xs ys zs : Array α} (h : Extends R xs ys)
    (h' : Extends R ys zs) : Extends R xs zs := by
  intro i x hx
  obtain ⟨y, hy, hxy⟩ := h i x hx
  obtain ⟨z, hz, hyz⟩ := h' i y hy
  exact ⟨z, hz, hR x y z hxy hyz⟩

theorem size_le {xs ys : Array α} (h : Extends R xs ys) : xs.size ≤ ys.size := by
  refine Nat.le_of_not_lt fun hlt => ?_
  obtain ⟨y, hget, _⟩ := h _ _ (Array.getElem?_eq_getElem hlt)
  simp at hget

theorem push (hR : ∀ x, R x x) (xs : Array α) (a : α) : Extends R xs (xs.push a) := by
  intro i x hx
  have hi : i < xs.size := (Array.getElem?_eq_some_iff.1 hx).1
  refine ⟨x, ?_, hR x⟩
  rw [Array.getElem?_push, if_neg (by omega), hx]

theorem modify (hR : ∀ x, R x x) (xs : Array α) (i : Nat) (f : α → α)
    (hf : ∀ x, xs[i]? = some x → R x (f x)) : Extends R xs (xs.modify i f) := by
  intro j x hx
  rw [Array.getElem?_modify]
  by_cases hij : i = j
  · subst hij
    exact ⟨f x, by simp [hx], hf x hx⟩
  · exact ⟨x, by simp [hij, hx], hR x⟩

end Extends

/-! ### States -/

/-- A frame that lies where another one lay. -/
def Frame.SamePlace (f g : Frame) : Prop :=
  g.parent = f.parent ∧ g.isolated = f.isolated ∧ g.topLevel = f.topLevel

/-- A context with the globals of another one. -/
def Context.SameGlobals (c d : Context) : Prop := d.globals = c.globals

/-- A template that may have been compiled since. -/
def Template.SameSource (t u : Template) : Prop :=
  u.name = t.name ∧ u.source = t.source ∧ ∀ c, t.compiled = some c → u.compiled = some c

/-- A state after another one of the same run. -/
structure State.Grows (s s' : State) : Prop where
  frames : Extends Frame.SamePlace s.frames s'.frames
  contexts : Extends Context.SameGlobals s.contexts s'.contexts
  parents : s.parents.size ≤ s'.parents.size
  templates : Extends Template.SameSource s.templates s'.templates
  functions : s'.functions = s.functions
  next : s.next ≤ s'.next

theorem Frame.SamePlace.refl (f : Frame) : f.SamePlace f := ⟨rfl, rfl, rfl⟩

theorem Frame.SamePlace.trans {f g h : Frame} (hfg : f.SamePlace g) (hgh : g.SamePlace h) :
    f.SamePlace h :=
  ⟨hgh.1.trans hfg.1, hgh.2.1.trans hfg.2.1, hgh.2.2.trans hfg.2.2⟩

theorem Context.SameGlobals.refl (c : Context) : c.SameGlobals c := rfl

theorem Context.SameGlobals.trans {c d e : Context} (hcd : c.SameGlobals d)
    (hde : d.SameGlobals e) : c.SameGlobals e :=
  Eq.trans hde hcd

theorem Template.SameSource.refl (t : Template) : t.SameSource t := ⟨rfl, rfl, fun _ h => h⟩

theorem Template.SameSource.trans {t u v : Template} (htu : t.SameSource u)
    (huv : u.SameSource v) : t.SameSource v :=
  ⟨huv.1.trans htu.1, huv.2.1.trans htu.2.1, fun c hc => huv.2.2 c (htu.2.2 c hc)⟩

namespace State.Grows

theorem refl (s : State) : s.Grows s where
  frames := Extends.refl Frame.SamePlace.refl _
  contexts := Extends.refl Context.SameGlobals.refl _
  parents := Nat.le_refl _
  templates := Extends.refl Template.SameSource.refl _
  functions := rfl
  next := Nat.le_refl _

theorem trans {s s' s'' : State} (h : s.Grows s') (h' : s'.Grows s'') : s.Grows s'' where
  frames := Extends.trans (fun _ _ _ hfg hgh => hfg.trans hgh) h.frames h'.frames
  contexts := Extends.trans (fun _ _ _ hcd hde => hcd.trans hde) h.contexts h'.contexts
  parents := Nat.le_trans h.parents h'.parents
  templates := Extends.trans (fun _ _ _ htu huv => htu.trans huv) h.templates h'.templates
  functions := h'.functions.trans h.functions
  next := Nat.le_trans h.next h'.next

variable (s : State)

theorem setFrames {frames : Frames} (h : Extends Frame.SamePlace s.frames frames) :
    s.Grows { s with frames := frames } :=
  { refl s with frames := h }

theorem setContexts {contexts : Array Context}
    (h : Extends Context.SameGlobals s.contexts contexts) :
    s.Grows { s with contexts := contexts } :=
  { refl s with contexts := h }

theorem setParents {parents : Array (Option TemplateId)} (h : s.parents.size ≤ parents.size) :
    s.Grows { s with parents := parents } :=
  { refl s with parents := h }

theorem setTemplates {templates : Array Template} {next : Nat}
    (h : Extends Template.SameSource s.templates templates) (hnext : s.next ≤ next) :
    s.Grows { s with next := next, templates := templates } :=
  { refl s with templates := h, next := hnext }

theorem setCaches (caches : Array (List (String × TemplateId))) :
    s.Grows { s with caches := caches } :=
  { refl s with }

end State.Grows

/-! ### Actions -/

/-- Every state that polling reaches has grown from the one before, from `s` on. -/
def Poll.Climbs {α : Type} : State → Poll α → Prop
  | s, .done _ s' => s.Grows s'
  | s, .wait s' rest => s.Grows s' ∧ ∀ s'' : State, s'.Grows s'' → (rest s'').Climbs s''

/-- An action that only lets the state grow. -/
def Action.Climbs {α : Type} (x : Action α) : Prop := ∀ s, (x s).Climbs s

namespace Poll.Climbs

theorem of_grows {α : Type} {s s' : State} (h : s.Grows s') {p : Poll α} (hp : p.Climbs s') :
    p.Climbs s := by
  cases p with
  | done answer t => exact h.trans hp
  | wait t rest => exact ⟨h.trans hp.1, hp.2⟩

theorem bind {α β : Type} {p : Poll α} {f : α → State → Poll β} (hf : ∀ a s, (f a s).Climbs s)
    {s : State} (hp : p.Climbs s) : (p.bind f).Climbs s := by
  induction p generalizing s with
  | done answer t =>
      cases answer with
      | ok a => exact of_grows hp (hf a t)
      | error e => exact hp
  | wait t rest ih => exact ⟨hp.1, fun s'' h => ih s'' (hp.2 s'' h)⟩

theorem mapAnswer {α β : Type} {p : Poll α} (f : Except TemplateError α → Except TemplateError β)
    {g : State → State} (hg : ∀ s : State, s.Grows (g s)) {s : State} (hp : p.Climbs s) :
    (p.mapAnswer f g).Climbs s := by
  induction p generalizing s with
  | done answer t => exact State.Grows.trans hp (hg t)
  | wait t rest ih => exact ⟨hp.1, fun s'' h => ih s'' (hp.2 s'' h)⟩

theorem map {α β : Type} {p : Poll α} (f : α → β) {s : State} (hp : p.Climbs s) :
    (p.map f).Climbs s :=
  hp.mapAnswer _ State.Grows.refl

theorem join {α β : Type} {p : Poll α} {q : State → Poll β} {s : State} (hp : p.Climbs s)
    (hq : ∀ s', s.Grows s' → (q s').Climbs s') : (p.join q).Climbs s := by
  induction p generalizing q s with
  | done answer t =>
      cases answer with
      | ok a => exact of_grows hp ((hq t hp).map _)
      | error e => exact hp
  | wait t rest ih =>
      simp only [Poll.join]
      have hqt := hq t hp.1
      cases hcase : q t with
      | done answer t' =>
          rw [hcase] at hqt
          cases answer with
          | ok b =>
              exact ⟨hp.1.trans hqt, fun s'' h => (hp.2 s'' (State.Grows.trans hqt h)).map _⟩
          | error e => exact hp.1.trans hqt
      | wait t' rest' =>
          rw [hcase] at hqt
          refine ⟨hp.1.trans hqt.1, fun s'' h => ?_⟩
          exact ih s'' (hp.2 s'' (hqt.1.trans h)) fun s₃ h₃ => hqt.2 s₃ (h.trans h₃)

theorem finish {α : Type} {p : Poll α} {s : State} (hp : p.Climbs s) (n : Nat) :
    s.Grows (p.finish n).2 := by
  induction p generalizing n s with
  | done answer t => cases n <;> exact hp
  | wait t rest ih =>
      cases n with
      | zero => exact hp.1
      | succ n => exact hp.1.trans (ih t (hp.2 t (.refl t)) n)

end Poll.Climbs

/-- Two actions one after the other, polled so often: either the first gave a result, and the second
was polled from there on, or the first decides what there is. -/
theorem Poll.finish_bind {α β : Type} (p : Poll α) (n : Nat) :
    (∃ m a t, p.finish m = (some (.ok a), t) ∧
      ∀ f : α → State → Poll β, (p.bind f).finish n = (f a t).finish (n - m)) ∨
    ∃ e t, p.finish n = (Option.map Except.error e, t) ∧
      ∀ f : α → State → Poll β, (p.bind f).finish n = (Option.map Except.error e, t) := by
  induction p generalizing n with
  | done answer t =>
      cases answer with
      | ok a => exact .inl ⟨0, a, t, rfl, fun f => rfl⟩
      | error e =>
          refine .inr ⟨some e, t, ?_, fun f => ?_⟩ <;> cases n <;> rfl
  | wait t rest ih =>
      cases n with
      | zero => exact .inr ⟨none, t, rfl, fun f => rfl⟩
      | succ n =>
          rcases ih t n with ⟨m, a, u, hp, hf⟩ | ⟨e, u, hp, hf⟩
          · refine .inl ⟨m + 1, a, u, hp, fun f => ?_⟩
            rw [Nat.add_sub_add_right]
            exact hf f
          · exact .inr ⟨e, u, hp, hf⟩

/-- Of three actions it does not matter which two are taken together. -/
theorem Action.bind_assoc {α β γ : Type} (x : Action α) (f : α → Action β) (g : β → Action γ) :
    x >>= f >>= g = x >>= fun a => f a >>= g := by
  have hpoll : ∀ p : Poll α, (p.bind f).bind g = p.bind fun a s => (f a s).bind g := by
    intro p
    induction p with
    | done answer s => cases answer <;> rfl
    | wait s rest ih => exact congrArg (Poll.wait s) (funext ih)
  exact funext fun s => hpoll (x s)

/-- The output of a first member of a list comes before those of the others. -/
theorem Action.appendAll_cons {α : Type} (f : α → Action String) (out : String) (a : α)
    (rest : List α) :
    appendAll f out (a :: rest) = f a >>= fun text => appendAll f (out ++ text) rest := by
  funext s
  change appendAll f out (a :: rest) s = (f a s).bind _
  simp only [appendAll]
  cases f a s with
  | done answer s => cases answer <;> rfl
  | wait s rest => rfl

namespace Action.Climbs

variable {α β : Type}

theorem pure (a : α) : Action.Climbs (Pure.pure a) := State.Grows.refl

theorem bind {x : Action α} {f : α → Action β} (hx : x.Climbs) (hf : ∀ a, (f a).Climbs) :
    (x >>= f).Climbs :=
  fun s => (hx s).bind hf

theorem join : ∀ {xs : List (Action α)}, (∀ x ∈ xs, x.Climbs) → (join xs).Climbs
  | [], _ => pure []
  | x :: xs, h => fun s =>
      ((h x (by simp) s).join fun s' _ => join (fun y hy => h y (by simp [hy])) s').map _

end Action.Climbs

end Stencil
