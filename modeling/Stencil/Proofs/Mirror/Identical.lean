/-
**Runs in equal states.**

The plainest way in which two runs can go in step: they run equal trees in equal states, and the
environments differ in little.  An action goes in step with itself, so what they have in common does.

Main definitions:

* `Stencil.Likeness.identical` — two runs that are in equal states and run equal trees;
* `Stencil.Environment.SameHost` — two environments with the same registrations.

Main results:

* `Stencil.Likeness.identical_acts` — an action goes in step with itself;
* `Stencil.Likeness.identical_keeps` — what the same host registered keeps runs in step.
-/

import Stencil.Proofs.Mirror.Lockstep

set_option autoImplicit false

namespace Stencil

/-- Frames that are alike are equal, where only equal trees and equal frames are. -/
theorem Mirror.Frames.eq {M : Mirror} {w : M.World} {f f' : Frame} (h : M.Frames w f f')
    (hnode : ∀ n n', M.node n n' → n' = n) (hframe : ∀ id id', M.frame w id id' → id' = id) :
    f' = f := by
  obtain ⟨hbindings, hparent, hisolated, htopLevel⟩ := h
  have hbindings := hbindings.eq hnode
  have hparent := eq_of_optionRel hframe hparent
  cases f
  cases f'
  simp only [Frame.mk.injEq]
  exact ⟨hbindings, hparent, hisolated, htopLevel⟩

namespace Likeness

/-- Two runs that are in equal states and run equal trees. -/
def identical : Likeness where
  World := Unit
  le _ _ := True
  refl _ := trivial
  trans _ _ := trivial
  frame _ := Eq
  frame_le _ h := h
  state _ := Eq
  node := Eq
  place := Eq
  faithful n n' h := by
    subst h
    exact .inl (.refl (fun _ => rfl) (fun _ => rfl) _)
  position h := congrArg Node.position h
  error := Eq
  error_refl _ := rfl
  locate hp he := by rw [hp, he]
  through name he := by rw [he]

variable {stray : Cause → Prop}

/-- A polled action goes in step with itself. -/
theorem identical_lockstep {α : Type} {Q : Unit → α → α → Prop} (hQ : ∀ a, Q () a a) (p : Poll α) :
    identical.Lockstep stray Q () p p := by
  induction p with
  | done answer s => exact .inr ⟨answer, s, (), rfl, trivial, rfl, Answers.of_eq (fun _ => rfl) hQ⟩
  | wait s rest ih =>
      refine .inr ⟨s, rest, (), rfl, trivial, rfl, fun _ t t' _ ht => ?_⟩
      obtain rfl : t = t' := ht
      exact ih t

/-- So does an action. -/
theorem identical_acts {α : Type} {Q : Unit → α → α → Prop} (hQ : ∀ a, Q () a a) (x : Action α) :
    (identical.lockstep stray).Acts () x x Q := by
  intro _ s s' _ hs
  obtain rfl : s = s' := hs
  exact identical_lockstep hQ _

/-- Frames, contexts and numbers of equal states are the same. -/
theorem identical_store : (identical.lockstep stray).Store where
  newFrames h := by
    obtain rfl := eq_of_forall₂ (fun _ _ hframe => hframe.eq (fun _ _ h => h.symm) fun _ _ h => h.symm) h
    exact identical_acts (fun _ => List.forall₂_same.2 fun _ _ => rfl) _
  newFrame h := by
    obtain rfl := h.eq (fun _ _ h => h.symm) fun _ _ h => h.symm
    exact identical_acts (fun _ => rfl) _
  setName name up hid hv := by
    obtain rfl := hid
    obtain rfl := hv.eq fun _ _ h => h.symm
    exact identical_acts (fun _ => trivial) _
  lookup name hscope hid := by
    obtain rfl := hid
    obtain rfl := hscope.eq fun _ _ h => h.symm
    exact identical_acts (Value.Alike.refl fun _ => rfl) _
  isTopLevel hid := by
    obtain rfl := hid
    exact identical_acts (fun _ => rfl) _
  flatten hid := by
    obtain rfl := hid
    exact identical_acts (Bindings.Alike.refl fun _ => rfl) _
  context id := identical_acts (Context.Alike.refl fun _ => rfl) _
  modifyContext id hf := by
    have heq := funext fun c => (hf (.refl (fun _ => rfl) c)).eq fun _ _ h => h.symm
    rw [heq]
    exact identical_acts (fun _ => trivial) _
  newContext h := by
    obtain rfl := h.eq fun _ _ h => h.symm
    exact identical_acts (fun _ => rfl) _
  create context path hblock := by
    obtain rfl := eq_of_optionRel (fun _ _ h => h.eq fun _ _ h => h.symm) hblock
    exact identical_acts (Scope.Alike.refl fun _ => rfl) _
  extended hscope := by
    obtain rfl := hscope.eq fun _ _ h => h.symm
    exact identical_acts (fun _ => .all rfl) _
  setExtended id _ hscope := by
    obtain rfl := hscope.eq fun _ _ h => h.symm
    exact identical_acts (fun _ => trivial) _
  newNumber := identical_acts (fun _ => rfl) _
  name id := identical_acts (fun _ => rfl) _
  depth h := congrArg State.depth (Eq.symm h)
  enter h := by
    obtain rfl := h
    rfl
  leave h := by
    obtain rfl := h
    rfl
  function number hargs := by
    obtain rfl := hargs.eq fun _ _ h => h.symm
    exact identical_acts (Value.Alike.refl fun _ => rfl) _

end Likeness

/-! ### Registrations -/

/-- Two environments with the same registrations. -/
structure Environment.SameHost (env env' : Environment) : Prop where
  loaders : env'.loaders = env.loaders
  cache : env'.cache = env.cache
  filters : env'.filters = env.filters
  tests : env'.tests = env.tests
  globals : env'.globals = env.globals
  extensions : env'.extensions = env.extensions
  autoescape : env'.config.autoescape = env.config.autoescape

/-- What the same host registered keeps runs in step, if templates are compiled and values are written
alike. -/
theorem Likeness.identical_keeps {stray : Cause → Prop} {env env' : Environment}
    (henv : env.extensions = []) (hhost : env.SameHost env') (hcompile : env'.compile = env.compile)
    (hwritten : ∀ v, (identical.lockstep stray).Acts () (Action.ofExcept (written env.config v))
      (Action.ofExcept (written env'.config v)) (identical.lockstep stray).Equal) :
    (identical.lockstep stray).Keeps env env' where
  toStore := identical_store
  compile id _ := by
    rw [hcompile]
    exact identical_acts (Compiled.Alike.refl fun _ => rfl) _
  load name parent ignoreMissing := by
    rw [Environment.load_congr hhost.loaders hhost.cache]
    exact identical_acts (fun _ => .all rfl) _
  globals := by
    rw [hhost.globals]
    exact .refl (fun _ => rfl) _
  autoescape := hhost.autoescape
  written hv := by
    obtain rfl := hv.eq fun _ _ h => h.symm
    exact hwritten _
  filter name := by
    rw [hhost.filters]
    cases env.filters.lookup name with
    | none => exact .none
    | some f =>
        refine .some fun hv hargs => ?_
        obtain rfl := hv.eq fun _ _ h => h.symm
        obtain rfl := eq_of_forall₂ (fun _ _ h => Value.Alike.eq (fun _ _ h => h.symm) h) hargs
        exact identical_acts (Value.Alike.refl fun _ => rfl) _
  test name := by
    rw [hhost.tests]
    cases env.tests.lookup name with
    | none => exact .none
    | some t =>
        refine .some fun hv hargs => ?_
        obtain rfl := hv.eq fun _ _ h => h.symm
        obtain rfl := eq_of_forall₂ (fun _ _ h => Value.Alike.eq (fun _ _ h => h.symm) h) hargs
        exact .of_eq (fun _ => rfl) fun _ => rfl
  tag name := by
    rw [Environment.extension?, Environment.extension?, hhost.extensions, henv, List.find?_nil]
    exact .none
  join _ := lockstep_join _ _

end Stencil
