/-
**Two runs of two trees.**

A run is compared with another one that runs trees related to its own, with other registrations, from
another state.  A likeness says what is related: trees, places, states and errors, and frames by their
numbers, as far as they are known in a world; worlds come after each other as more frames are made.
A mirror adds how polled actions are compared, and leaves open how: step by step, or by what they
come to if nobody else runs.

Main definitions:

* `Stencil.Likeness` — what is related between two runs;
* `Stencil.Mirror` — and how polled actions are compared;
* `Stencil.Mirror.Acts` — two actions that give related results from related states.

Main results:

* `Stencil.Mirror.Acts.bind`, `Stencil.Mirror.Acts.sequence`, `Stencil.Mirror.Acts.appendAll` —
  actions one after the other.
-/

import Stencil.Proofs.Mirror.Nodes
import Stencil.Proofs.Mirror.Values

set_option autoImplicit false

namespace Stencil

/-- What is related between two runs. -/
structure Likeness where
  /-- What is known of the frames of both runs. -/
  World : Type
  le : World → World → Prop
  refl : ∀ w, le w w
  trans : ∀ {u v w}, le u v → le v w → le u w
  frame : World → FrameId → FrameId → Prop
  frame_le : ∀ {v w id id'}, le v w → frame v id id' → frame w id id'
  state : World → State → State → Prop
  node : Node → Node → Prop
  place : Position → Position → Prop
  faithful : Node.Faithful place node
  position : ∀ {n n'}, node n n' → place n.position n'.position
  error : TemplateError → TemplateError → Prop
  error_refl : ∀ e, error e e
  locate : ∀ {e e' p p'}, place p p' → error e e' → error (e.locate p) (e'.locate p')
  through : ∀ {e e'} (name : String), error e e' → error (e.through name) (e'.through name)

/-- What is related between two runs, and how polled actions are compared. -/
structure Mirror extends Likeness where
  poll : {α β : Type} → (World → α → β → Prop) → World → Poll α → Poll β → Prop
  ok : ∀ {α β : Type} {Q : World → α → β → Prop} {w v a a' s s'}, le w v → state v s s' →
    Q v a a' → poll Q w (.done (.ok a) s) (.done (.ok a') s')
  failed : ∀ {α β : Type} {Q : World → α → β → Prop} {w v e e' s s'}, le w v → state v s s' →
    error e e' → poll Q w (.done (.error e) s) (.done (.error e') s')
  bind : ∀ {α β γ δ : Type} {Q : World → α → β → Prop} {S : World → γ → δ → Prop} {w p p'}
    {f : α → State → Poll γ} {f' : β → State → Poll δ}, poll Q w p p' →
    (∀ {v a a' s s'}, le w v → state v s s' → Q v a a' → poll S v (f a s) (f' a' s')) →
      poll S w (p.bind f) (p'.bind f')
  located : ∀ {α β : Type} {Q : World → α → β → Prop} {w p p' q q'}, place q q' →
    poll Q w p p' → poll Q w (p.mapAnswer (Except.mapError fun e => e.locate q) id)
      (p'.mapAnswer (Except.mapError fun e => e.locate q') id)
  passed : ∀ {α β : Type} {Q : World → α → β → Prop} {w p p'} (name : String), poll Q w p p' →
    poll Q w (p.mapAnswer (Except.mapError fun e => e.through name) id)
      (p'.mapAnswer (Except.mapError fun e => e.through name) id)
  changed : ∀ {α β : Type} {Q : World → α → β → Prop} {w p p'} {g : State → State},
    (∀ {v s s'}, state v s s' → state v (g s) (g s')) → poll Q w p p' →
      poll Q w (p.mapAnswer id g) (p'.mapAnswer id g)

namespace Mirror

variable (M : Mirror)

/-- Two actions that give related results from related states, now and later. -/
def Acts {α β : Type} (w : M.World) (x : Action α) (x' : Action β)
    (Q : M.World → α → β → Prop) : Prop :=
  ∀ v s s', M.le w v → M.state v s s' → M.poll Q v (x s) (x' s')

/-- Two values that are alike. -/
abbrev Same (_ : M.World) (v v' : Value) : Prop := v.Alike M.node v'

/-- Two results that are equal. -/
abbrev Equal {α : Type} (_ : M.World) (a a' : α) : Prop := a' = a

/-- Nothing is asked of two results. -/
abbrev Any {α β : Type} (_ : M.World) (_ : α) (_ : β) : Prop := True

namespace Acts

variable {M} {α β γ δ : Type} {w v : M.World} {x : Action α} {x' : Action β}
  {Q : M.World → α → β → Prop} {S : M.World → γ → δ → Prop}

theorem later (h : M.Acts w x x' Q) (hv : M.le w v) : M.Acts v x x' Q :=
  fun u s s' hu hs => h u s s' (M.trans hv hu) hs

theorem pure {a : α} {a' : β} (h : ∀ v, M.le w v → Q v a a') :
    M.Acts w (Pure.pure a) (Pure.pure a') Q :=
  fun v _ _ hv hs => M.ok (M.refl v) hs (h v hv)

/-- One action after another. -/
theorem bind (hx : M.Acts w x x' Q) {f : α → Action γ} {f' : β → Action δ}
    (hf : ∀ v a a', M.le w v → Q v a a' → M.Acts v (f a) (f' a') S) :
    M.Acts w (x >>= f) (x' >>= f') S :=
  fun v s s' hv hs => M.bind (hx v s s' hv hs) fun {u _ _ _ _} hu ht ha =>
    hf u _ _ (M.trans hv hu) ha u _ _ (M.refl u) ht

theorem map (hx : M.Acts w x x' Q) {f : α → γ} {f' : β → δ}
    (hf : ∀ v a a', M.le w v → Q v a a' → S v (f a) (f' a')) (hS : ∀ u v c c', M.le u v →
      S u c c' → S v c c') : M.Acts w (f <$> x) (f' <$> x') S :=
  hx.bind fun v a a' hv ha => pure fun u hu => hS v u _ _ hu (hf v a a' hv ha)

theorem ofExcept {a : Except TemplateError α} {a' : Except TemplateError β}
    (h : ∀ v, M.le w v → Answers M.error (Q v) a a') :
    M.Acts w (Action.ofExcept a) (Action.ofExcept a') Q := by
  intro v s s' hv hs
  cases h v hv with
  | ok ha => exact M.ok (M.refl v) hs ha
  | error he => exact M.failed (M.refl v) hs he

/-- Answers with the same errors. -/
theorem ofAnswers {T : α → β → Prop} {a : Except TemplateError α} {a' : Except TemplateError β}
    (h : Answers Eq T a a') :
    M.Acts w (Action.ofExcept a) (Action.ofExcept a') fun _ => T :=
  ofExcept fun _ _ => by
    cases h with
    | ok h => exact .ok h
    | error h => exact .error (h ▸ M.error_refl _)

theorem fail (c : Cause) : M.Acts w (Action.fail c) (Action.fail c) Q :=
  fun v _ _ _ hs => M.failed (M.refl v) hs (M.error_refl _)

/-- What the states are read for is related. -/
theorem read {f : State → α} {f' : State → β}
    (h : ∀ v s s', M.le w v → M.state v s s' → Q v (f s) (f' s')) :
    M.Acts w (Action.read f) (Action.read f') Q :=
  fun v s s' hv hs => M.ok (M.refl v) hs (h v s s' hv hs)

/-- The states are changed at once. -/
theorem change {f : State → α × State} {f' : State → β × State}
    (h : ∀ v s s', M.le w v → M.state v s s' →
      ∃ u, M.le v u ∧ M.state u (f s).2 (f' s').2 ∧ Q u (f s).1 (f' s').1) :
    M.Acts w (Action.change f) (Action.change f') Q := by
  intro v s s' hv hs
  obtain ⟨u, hu, ht, ha⟩ := h v s s' hv hs
  exact M.ok hu ht ha

theorem modify {f f' : State → State}
    (h : ∀ v s s', M.le w v → M.state v s s' → M.state v (f s) (f' s')) :
    M.Acts w (Action.modify f) (Action.modify f') M.Any :=
  fun v s s' hv hs => M.ok (M.refl v) (h v s s' hv hs) trivial

theorem located (h : M.Acts w x x' Q) {p p' : Position} (hp : M.place p p') :
    M.Acts w (Action.located p x) (Action.located p' x') Q :=
  fun v s s' hv hs => M.located hp (h v s s' hv hs)

theorem throughTemplate (h : M.Acts w x x' Q) (name : String) :
    M.Acts w (Action.throughTemplate name x) (Action.throughTemplate name x') Q :=
  fun v s s' hv hs => M.passed name (h v s s' hv hs)

theorem andFinally (h : M.Acts w x x' Q) {g : State → State}
    (hg : ∀ {v s s'}, M.state v s s' → M.state v (g s) (g s')) :
    M.Acts w (Action.andFinally x g) (Action.andFinally x' g) Q :=
  fun v s s' hv hs => M.changed hg (h v s s' hv hs)

/-- Actions one after the other. -/
theorem sequence {ι κ : Type} {f : ι → Action α} {f' : κ → Action β} {T : ι → κ → Prop}
    {S : α → β → Prop} {cs : List ι} {cs' : List κ} (hcs : List.Forall₂ T cs cs')
    (h : ∀ c c', T c c' → M.Acts w (f c) (f' c') fun _ => S) :
    M.Acts w (Action.sequence (cs.map f)) (Action.sequence (cs'.map f'))
      fun _ => List.Forall₂ S := by
  induction hcs with
  | nil => exact pure fun _ _ => .nil
  | cons hc _ ih =>
      refine (h _ _ hc).bind fun v a a' hv ha => ?_
      refine (ih.later hv).bind fun u as as' _ has => ?_
      exact pure fun _ _ => .cons ha has

/-- Outputs one after the other. -/
theorem appendAll {ι κ : Type} {f : ι → Action String} {f' : κ → Action String}
    {T : ι → κ → Prop} {cs : List ι} {cs' : List κ} (hcs : List.Forall₂ T cs cs')
    (h : ∀ c c', T c c' → M.Acts w (f c) (f' c') M.Equal) (out : String) :
    M.Acts w (Action.appendAll f out cs) (Action.appendAll f' out cs') M.Equal := by
  induction hcs generalizing w out with
  | nil => exact pure (a := out) fun _ _ => rfl
  | cons hc _ ih =>
      rw [Action.appendAll_cons, Action.appendAll_cons]
      refine (h _ _ hc).bind fun v text text' hv htext => ?_
      obtain rfl : text' = text := htext
      exact ih (fun c c' hc => (h c c' hc).later hv) _

end Acts

end Mirror

end Stencil
