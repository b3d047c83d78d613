/-
**Runs that keep what is known of the state.**

Something is known of the state before a run, and it is to be known after it, and in between whenever
the run waits.  Such a run is compared with itself, or with one that does the same as long as it is
known: both are in equal states at any time, and each of them finds what is known again when it is
polled, whatever others did meanwhile.

Main definitions:

* `Stencil.Likeness.within` — two runs in equal states of which something is known;
* `Stencil.Poll.Stays` — a polled action after which it is still known;
* `Stencil.State.SameTemplates` — states that have the same templates, kept and extended alike;
* `Stencil.Guarded` — what can be known of a state while frames and contexts change.

Main results:

* `Stencil.Likeness.within_acts` — an action that keeps what is known goes in step with itself;
* `Stencil.Likeness.within_store` — the actions on frames and contexts keep what is guarded.
-/

import Stencil.Proofs.Mirror.Identical

set_option autoImplicit false

namespace Stencil

variable {I : State → Prop} {α β : Type}

/-! ### Actions that keep what is known -/

/-- A polled action that gives only some results and keeps what is known of the state. -/
def Poll.Stays (I : State → Prop) (Q : α → Prop) : Poll α → Prop
  | .done answer s => I s ∧ ∀ a, answer = .ok a → Q a
  | .wait s rest => I s ∧ ∀ t, I t → (rest t).Stays I Q

/-- An action that gives only some results and keeps what is known of the state. -/
def Action.Stays (I : State → Prop) (x : Action α) (Q : α → Prop) : Prop :=
  ∀ s, I s → (x s).Stays I Q

theorem Poll.Stays.mono {Q S : α → Prop} {p : Poll α} (h : p.Stays I Q) (hS : ∀ a, Q a → S a) :
    p.Stays I S := by
  induction p with
  | done answer s => exact ⟨h.1, fun a ha => hS a (h.2 a ha)⟩
  | wait s rest ih => exact ⟨h.1, fun t ht => ih t (h.2 t ht)⟩

theorem Poll.Stays.bind {Q : α → Prop} {S : β → Prop} {f : α → State → Poll β} {p : Poll α}
    (h : p.Stays I Q) (hf : ∀ a s, I s → Q a → (f a s).Stays I S) : (p.bind f).Stays I S := by
  induction p with
  | done answer s =>
      cases answer with
      | ok a => exact hf a s h.1 (h.2 a rfl)
      | error e => exact ⟨h.1, fun _ he => nomatch he⟩
  | wait s rest ih => exact ⟨h.1, fun t ht => ih t (h.2 t ht)⟩

namespace Action.Stays

variable {Q : α → Prop} {S : β → Prop} {x : Action α}

theorem pure {a : α} (h : Q a) : Stays I (Pure.pure a) Q :=
  fun _ hs => ⟨hs, fun _ he => by cases he; exact h⟩

theorem fail (c : Cause) : Stays I (fail c) Q := fun _ hs => ⟨hs, fun _ he => nomatch he⟩

theorem read {f : State → α} (h : ∀ s, I s → Q (f s)) : Stays I (read f) Q :=
  fun s hs => ⟨hs, fun _ he => by cases he; exact h s hs⟩

theorem change {f : State → α × State} (h : ∀ s, I s → I (f s).2 ∧ Q (f s).1) :
    Stays I (change f) Q :=
  fun s hs => ⟨(h s hs).1, fun _ he => by cases he; exact (h s hs).2⟩

theorem modify {f : State → State} (h : ∀ s, I s → I (f s)) :
    Stays I (modify f) fun _ => True :=
  change (f := fun s => ((), f s)) fun s hs => ⟨h s hs, trivial⟩

theorem bind {f : α → Action β} (hx : Stays I x Q) (hf : ∀ a, Q a → Stays I (f a) S) :
    Stays I (x >>= f) S :=
  fun s hs => (hx s hs).bind fun a t ht ha => hf a ha t ht

end Action.Stays

/-! ### Runs compared with themselves -/

namespace Likeness

/-- Two runs of equal trees that are in equal states, of which something is known. -/
def within (I : State → Prop) : Likeness :=
  { identical with state := fun _ s s' => s' = s ∧ I s }

variable {stray : Cause → Prop}

theorem within_lockstep {Q : α → Prop} {R : Unit → α → α → Prop} {p : Poll α} (h : p.Stays I Q)
    (hR : ∀ a, Q a → R () a a) : (within I).Lockstep stray R () p p := by
  induction p with
  | done answer s =>
      refine .inr ⟨answer, s, (), rfl, trivial, ⟨rfl, h.1⟩, ?_⟩
      cases answer with
      | ok a => exact .ok (hR a (h.2 a rfl))
      | error e => exact .error rfl
  | wait s rest ih =>
      refine .inr ⟨s, rest, (), rfl, trivial, ⟨rfl, h.1⟩, fun _ t t' _ ht => ?_⟩
      obtain ⟨rfl, hI⟩ := ht
      exact ih t' (h.2 t' hI)

/-- An action that keeps what is known goes in step with itself. -/
theorem within_acts {Q : α → Prop} {R : Unit → α → α → Prop} {x : Action α} (h : x.Stays I Q)
    (hR : ∀ a, Q a → R () a a) : ((within I).lockstep stray).Acts () x x R := by
  intro _ s s' _ hs
  obtain ⟨rfl, hI⟩ := hs
  exact within_lockstep (h s' hI) hR

/-- What is known of a run that goes in step with another one. -/
theorem within_finish {R : Unit → α → α → Prop} {x x' : Action α}
    (h : ((within I).lockstep fun _ => False).Acts () x x' R) (hR : ∀ a a', R () a a' → a' = a)
    {s : State} (hs : I s) (n : Nat) :
    (x' s).finish n = (x s).finish n ∧ I ((x s).finish n).2 := by
  rcases (h () s s trivial ⟨rfl, hs⟩).finish n with ⟨_, _, hfalse, _⟩ | ⟨_, _, ⟨hstate, hI⟩, hanswer⟩
  · exact hfalse.elim
  · refine ⟨Prod.ext (eq_of_optionRel (fun _ _ h => ?_) hanswer) hstate, hI⟩
    cases h with
    | ok h => exact congrArg Except.ok (hR _ _ h)
    | error h => exact congrArg Except.error h.symm

end Likeness

/-! ### What frames and contexts have no part in -/

/-- States that have the same templates, which are kept and extended alike. -/
structure State.SameTemplates (s s' : State) : Prop where
  templates : s'.templates = s.templates
  caches : s'.caches = s.caches
  parents : s'.parents = s.parents

/-- What is known of a state, if frames and contexts have no part in it, and all templates that are
extended are among some. -/
structure Guarded (I : State → Prop) (T : TemplateId → Prop) : Prop where
  same : ∀ {s s' : State}, s.SameTemplates s' → s'.memories = s.memories → I s → I s'
  create : ∀ {s : State}, I s → I { s with parents := s.parents.push none }
  extended : ∀ {s : State} {i : Nat} {id : TemplateId}, I s → s.parents[i]? = some (some id) → T id
  setExtended : ∀ {s : State} {id : TemplateId} (i : Nat), I s → T id →
    I { s with parents := s.parents.modify i fun _ => some id }

namespace Likeness

variable {T : TemplateId → Prop} {stray : Cause → Prop}

variable {R : Unit → α → α → Prop}

/-- What is read is the same. -/
theorem within_read (hR : ∀ a, R () a a) (f : State → α) :
    ((within I).lockstep stray).Acts () (Action.read f) (Action.read f) R :=
  within_acts (Q := fun _ => True) (.read fun _ _ => trivial) fun a _ => hR a

/-- What is guarded has nothing to do with other parts of the state. -/
theorem within_change (hI : Guarded I T) (hR : ∀ a, R () a a) {f : State → α × State}
    (hf : ∀ s : State, s.SameTemplates (f s).2) (hmemories : ∀ s : State, (f s).2.memories = s.memories) :
    ((within I).lockstep stray).Acts () (Action.change f) (Action.change f) R :=
  within_acts (Q := fun _ => True)
    (.change fun s hs => ⟨hI.same (hf s) (hmemories s) hs, trivial⟩) fun a _ => hR a

theorem within_modify (hI : Guarded I T) {f : State → State}
    (hf : ∀ s : State, s.SameTemplates (f s)) (hmemories : ∀ s : State, (f s).memories = s.memories) :
    ((within I).lockstep stray).Acts () (Action.modify f) (Action.modify f) fun _ _ _ => True :=
  within_change (f := fun s => ((), f s)) hI (fun _ => trivial) hf hmemories

/-- The actions on frames and contexts keep what is guarded. -/
theorem within_store (hI : Guarded I T) : ((within I).lockstep stray).Store T where
  newFrames h := by
    obtain rfl := eq_of_forall₂ (fun _ _ hframe => hframe.eq (fun _ _ h => h.symm) fun _ _ h => h.symm) h
    exact within_change hI (fun _ => List.forall₂_same.2 fun _ _ => rfl) (fun _ => ⟨rfl, rfl, rfl⟩)
      fun _ => rfl
  newFrame h := by
    obtain rfl := h.eq (fun _ _ h => h.symm) fun _ _ h => h.symm
    exact within_change hI (fun _ => rfl) (fun _ => ⟨rfl, rfl, rfl⟩) fun _ => rfl
  setName name up hid hv := by
    obtain rfl := hid
    obtain rfl := hv.eq fun _ _ h => h.symm
    exact within_modify hI (fun _ => ⟨rfl, rfl, rfl⟩) fun _ => rfl
  lookup name hscope hid := by
    obtain rfl := hid
    obtain rfl := hscope.eq fun _ _ h => h.symm
    exact within_read (Value.Alike.refl fun _ => rfl) _
  isTopLevel hid := by
    obtain rfl := hid
    exact within_read (fun _ => rfl) _
  flatten hid := by
    obtain rfl := hid
    exact within_read (Bindings.Alike.refl fun _ => rfl) _
  context id := within_read (Context.Alike.refl fun _ => rfl) _
  modifyContext id hf := by
    have heq := funext fun c => (hf (.refl (fun _ => rfl) c)).eq fun _ _ h => h.symm
    rw [heq]
    exact within_modify hI (fun _ => ⟨rfl, rfl, rfl⟩) fun _ => rfl
  newContext h := by
    obtain rfl := h.eq fun _ _ h => h.symm
    exact within_change hI (fun _ => rfl) (fun _ => ⟨rfl, rfl, rfl⟩) fun _ => rfl
  create context path hblock := by
    obtain rfl := eq_of_optionRel (fun _ _ h => h.eq fun _ _ h => h.symm) hblock
    exact within_acts (Q := fun _ => True) (.change fun s hs => ⟨hI.create hs, trivial⟩)
      fun scope _ => .refl (fun _ => rfl) scope
  extended hscope := by
    obtain rfl := hscope.eq fun _ _ h => h.symm
    refine within_acts (Q := fun o => ∀ id, o = some id → T id) (.read fun s hs id hid => ?_)
      fun o ho => ⟨rfl, ho⟩
    rcases Option.getD_eq_iff.1 hid with hparent | ⟨-, hnone⟩
    · exact hI.extended hs hparent
    · cases hnone
  setExtended id hid hscope := by
    obtain rfl := hscope.eq fun _ _ h => h.symm
    exact within_acts (.modify fun s hs => hI.setExtended _ hs hid) fun _ h => h
  newNumber := within_change hI (fun _ => rfl) (fun _ => ⟨rfl, rfl, rfl⟩) fun _ => rfl
  name id := within_read (fun _ => rfl) _
  depth h := congrArg State.depth h.1
  enter {_ _ s'} h := by
    obtain ⟨rfl, h⟩ := h
    exact ⟨rfl, hI.same (s := s') ⟨rfl, rfl, rfl⟩ rfl h⟩
  leave {_ _ s'} h := by
    obtain ⟨rfl, h⟩ := h
    exact ⟨rfl, hI.same (s := s') ⟨rfl, rfl, rfl⟩ rfl h⟩
  function number hargs := by
    obtain rfl := hargs.eq fun _ _ h => h.symm
    refine within_acts (Q := fun _ => True) (fun s hs => ?_) fun v _ => .refl (fun _ => rfl) v
    unfold Render.callFunction
    split <;> exact ⟨hs, fun _ _ => trivial⟩

end Likeness

end Stencil
