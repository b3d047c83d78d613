/-
**Strictness only refuses.**

A strict environment fails where an undefined or absent value is output, and a lenient one writes
nothing there.  This is the only place where they go apart: the options that a lexer keeps do not
hold strictness, so both read the same trees, and no other code asks for it.  So the strict run is a
reference that the lenient one goes along with until the strict one refuses to output something.

Main definitions:

* `Stencil.Environment.withStrict` — the environment, strict or lenient.

Main results:

* `Stencil.Environment.renderEntry_follows_strict` — a lenient run is the strict one, unless that
  one refuses to output something;
* `Stencil.Environment.renderEntry_strict` — **strictness only refuses**: a strict run that succeeds
  gives what the lenient one gives, and where only the strict one fails, it fails for this reason.
-/

import Stencil.Proofs.Evaluation.Hosts
import Stencil.Proofs.Mirror.Identical

set_option autoImplicit false

namespace Stencil

/-! ### The strict run as a reference -/

/-- The environment, strict or lenient. -/
def Environment.withStrict (env : Environment) (strict : Bool) : Environment :=
  { env with config := { env.config with strict := strict } }

/-- The error with which a strict run refuses to output something. -/
def Cause.IsRefusal (c : Cause) : Prop := c = .nullOutput

variable {env : Environment}

/-- What is written leniently is what is written strictly, unless that is refused. -/
theorem written_follows_strict (v : Value) :
    (Likeness.identical.lockstep Cause.IsRefusal).Acts ()
      (Action.ofExcept (written (env.withStrict false).config v))
      (Action.ofExcept (written (env.withStrict true).config v))
      (Likeness.identical.lockstep Cause.IsRefusal).Equal := by
  cases v with
  | undefined | nothing => exact fun _ _ s' _ _ => Likeness.Lockstep.of_stray (t := s') rfl
  | _ => exact Likeness.identical_acts (fun _ => rfl) _

/-- Two environments that differ in strictness alone have the same registrations. -/
theorem Environment.strictness_keeps (henv : env.extensions = []) :
    (Likeness.identical.lockstep Cause.IsRefusal).Keeps (env.withStrict false)
      (env.withStrict true) :=
  Likeness.identical_keeps henv (by constructor <;> rfl) rfl written_follows_strict

namespace Environment

/-- **A lenient run is the strict one**, unless that one refuses to output something. -/
theorem renderEntry_follows_strict (henv : env.extensions = []) (depth n : Nat) (entry : Entry)
    (data : Value) (s : State) :
    (∃ e t, e.cause = .nullOutput ∧
      (((env.withStrict true).renderEntry depth entry data) s).finish n = (some (.error e), t)) ∨
      (((env.withStrict true).renderEntry depth entry data) s).finish n =
        (((env.withStrict false).renderEntry depth entry data) s).finish n := by
  have hM := strictness_keeps henv
  have hreaches : ∀ {ev ev' : Evaluator}, (Likeness.identical.lockstep Cause.IsRefusal).Reaches
      (env.withStrict false) (env.withStrict true) ev ev' := by
    rintro _ _ n _ rfl
    exact .inl (.refl (fun _ => rfl) (fun _ => rfl) n)
  have hentry : (Likeness.identical.lockstep Cause.IsRefusal).Acts () ((env.withStrict false).enter entry)
      ((env.withStrict true).enter entry) (Likeness.identical.lockstep Cause.IsRefusal).Equal := by
    have henter : (env.withStrict true).enter entry = (env.withStrict false).enter entry :=
      enter_congr (by rfl) (by rfl) entry
    rw [henter]
    exact Likeness.identical_acts (fun _ => rfl) _
  have hruns := (Evaluator.Mirrored.tied hM (fun _ _ => hreaches) depth).renderWith hM.toServes
    (fun h => congrArg startRun h) hentry (.refl (fun _ => rfl) data)
  rcases (hruns () s s trivial rfl).finish n with h | ⟨_, _, hstate, hanswer⟩
  · exact .inl h
  · refine .inr (Prod.ext (eq_of_optionRel (fun _ _ h => ?_) hanswer) hstate.symm)
    cases h with
    | ok h => exact congrArg Except.ok h
    | error h => exact congrArg Except.error h.symm

/-- **Strictness only refuses.**  What a strict run writes, the lenient run writes; and where only
the strict run fails, it fails because it refuses to output something. -/
theorem renderEntry_strict (henv : env.extensions = []) (depth n : Nat) (entry : Entry)
    (data : Value) (s : State) :
    (∀ text t,
      (((env.withStrict true).renderEntry depth entry data) s).finish n = (some (.ok text), t) →
        (((env.withStrict false).renderEntry depth entry data) s).finish n = (some (.ok text), t)) ∧
    ∀ text t,
      (((env.withStrict false).renderEntry depth entry data) s).finish n = (some (.ok text), t) →
        (((env.withStrict true).renderEntry depth entry data) s).finish n = (some (.ok text), t) ∨
          ∃ e u, e.message = "attempted to output null or undefined value" ∧
            (((env.withStrict true).renderEntry depth entry data) s).finish n =
              (some (.error e), u) := by
  rcases renderEntry_follows_strict henv depth n entry data s with ⟨e, u, he, hstrict⟩ | hsame
  · refine ⟨fun text t h => ?_, fun text t _ => .inr ⟨e, u, congrArg Cause.message he, hstrict⟩⟩
    cases hstrict.symm.trans h
  · exact ⟨fun text t h => hsame ▸ h, fun text t h => .inl (hsame.trans h)⟩

/-- A page that captures what a macro writes and outputs a name that is bound nowhere. -/
def forgetful : Environment × State := ofMemory [
  ("page", "\x7b% from 'lib' import m %\x7d\x7b% set y %\x7d\x7b\x7b m(1) \x7d\x7d" ++
    "\x7b% endset %\x7d\x7b\x7b y \x7d\x7d\x7b\x7b m(x) \x7d\x7d"),
  ("lib", "\x7b% macro m(x) %\x7d[\x7b\x7b x \x7d\x7d]\x7b% endmacro %\x7d")]

/-- The lenient run writes nothing for the name, and the strict one refuses. -/
theorem renderEntry_strict_of_missing :
    ∃ t, (((forgetful.1.withStrict false).renderEntry 20 (.named "page") .nothing)
        forgetful.2).finish 0 = (some (.ok "[1][]"), t) ∧
      ∃ e u, e.message = "attempted to output null or undefined value" ∧
        (((forgetful.1.withStrict true).renderEntry 20 (.named "page") .nothing)
          forgetful.2).finish 0 = (some (.error e), u) := by
  have hlenient : ((((forgetful.1.withStrict false).renderEntry 20 (.named "page") .nothing)
      forgetful.2).finish 0).1.bind Except.toOption = some "[1][]" := by decide +kernel
  have hstrict : ((((forgetful.1.withStrict true).renderEntry 20 (.named "page") .nothing)
      forgetful.2).finish 0).1.bind Except.toOption = none := by decide +kernel
  have hrun := Poll.eq_of_toOption hlenient
  refine ⟨_, hrun, ?_⟩
  have hnone : forgetful.1.extensions = [] := rfl
  rcases (renderEntry_strict hnone 20 0 (.named "page") .nothing forgetful.2).2 _ _ hrun with h | h
  · rw [h] at hstrict
    cases hstrict
  · exact h

end Environment

end Stencil
