/-
**What an action comes to among others.**

A polled action that waits is polled again from the state in which the others left things meanwhile.
Here it is followed to its answer, with whatever the others may do told by a relation: with equality,
the action is polled again and again with nobody else around.

Main definitions:

* `Stencil.Poll.Yields` — an action comes to an answer and a state, while others change the state in
  between.

Main results:

* `Stencil.Poll.yields_bind_iff`, `Stencil.Poll.yields_mapAnswer_iff` — the answers of composed
  actions are composed of answers;
* `Stencil.Poll.exists_yields` — there is an answer;
* `Stencil.Poll.Yields.of_finish` — what polling gives with nobody else around is such an answer;
* `Stencil.Likeness.Lockstep.yields` — what two actions that go in step come to is related.
-/

import Stencil.Proofs.Mirror.Lockstep

set_option autoImplicit false

namespace Stencil

variable {R : State → State → Prop} {α β : Type}

namespace Poll

/-- An action comes to an answer, while others change the state as told whenever it waits. -/
inductive Yields (R : State → State → Prop) : Poll α → Except TemplateError α → State → Prop
  | done {answer : Except TemplateError α} {s : State} : Yields R (.done answer s) answer s
  | wait {s t u : State} {rest : State → Poll α} {answer : Except TemplateError α}
    (hothers : R s t) (h : Yields R (rest t) answer u) : Yields R (.wait s rest) answer u

variable {answer : Except TemplateError α} {s u : State}

theorem yields_done_iff {given : Except TemplateError α} :
    (done given s).Yields R answer u ↔ answer = given ∧ u = s := by
  constructor
  · intro h
    cases h
    exact ⟨rfl, rfl⟩
  · rintro ⟨rfl, rfl⟩
    exact .done

theorem yields_wait_iff {rest : State → Poll α} :
    (wait s rest).Yields R answer u ↔ ∃ t, R s t ∧ (rest t).Yields R answer u := by
  constructor
  · intro h
    cases h with
    | wait hothers h => exact ⟨_, hothers, h⟩
  · rintro ⟨t, hothers, h⟩
    exact .wait hothers h

/-- An action that goes on with another one fails with its error, or comes to what the other one
comes to from its result. -/
theorem yields_bind_iff {p : Poll α} {f : α → State → Poll β} {answer : Except TemplateError β} :
    (p.bind f).Yields R answer u ↔ (∃ e, answer = .error e ∧ p.Yields R (.error e) u) ∨
      ∃ a t, p.Yields R (.ok a) t ∧ (f a t).Yields R answer u := by
  -- by induction on the first action; while it waits, others take the same steps on both sides
  induction p with
  | done given s =>
      cases given with
      | ok a =>
          refine ⟨fun h => .inr ⟨a, s, .done, h⟩, ?_⟩
          rintro (⟨e, -, h⟩ | ⟨b, t, h, hf⟩)
          · cases h
          · cases h
            exact hf
      | error e =>
          constructor
          · intro h
            obtain ⟨rfl, rfl⟩ := yields_done_iff.1 h
            exact .inl ⟨e, rfl, .done⟩
          · rintro (⟨e', rfl, h⟩ | ⟨b, t, h, -⟩)
            · obtain ⟨heq, rfl⟩ := yields_done_iff.1 h
              cases heq
              exact .done
            · cases h
  | wait s rest ih =>
      rw [bind, yields_wait_iff]
      constructor
      · rintro ⟨t, hothers, h⟩
        rcases (ih t).1 h with ⟨e, rfl, hfails⟩ | ⟨a, v, hgives, hf⟩
        · exact .inl ⟨e, rfl, .wait hothers hfails⟩
        · exact .inr ⟨a, v, .wait hothers hgives, hf⟩
      · rintro (⟨e, rfl, h⟩ | ⟨a, v, h, hf⟩)
        · obtain ⟨t, hothers, h⟩ := yields_wait_iff.1 h
          exact ⟨t, hothers, (ih t).2 (.inl ⟨e, rfl, h⟩)⟩
        · obtain ⟨t, hothers, h⟩ := yields_wait_iff.1 h
          exact ⟨t, hothers, (ih t).2 (.inr ⟨a, v, h, hf⟩)⟩

theorem yields_mapAnswer_iff {p : Poll α} {f : Except TemplateError α → Except TemplateError β}
    {g : State → State} {answer : Except TemplateError β} :
    (p.mapAnswer f g).Yields R answer u ↔ ∃ a t, p.Yields R a t ∧ answer = f a ∧ u = g t := by
  induction p with
  | done given s =>
      constructor
      · intro h
        obtain ⟨rfl, rfl⟩ := yields_done_iff.1 h
        exact ⟨given, s, .done, rfl, rfl⟩
      · rintro ⟨a, t, h, rfl, rfl⟩
        cases h
        exact .done
  | wait s rest ih =>
      rw [mapAnswer, yields_wait_iff]
      constructor
      · rintro ⟨t, hothers, h⟩
        obtain ⟨a, v, h, ha, hv⟩ := (ih t).1 h
        exact ⟨a, v, .wait hothers h, ha, hv⟩
      · rintro ⟨a, v, h, ha, hv⟩
        obtain ⟨t, hothers, h⟩ := yields_wait_iff.1 h
        exact ⟨t, hothers, (ih t).2 ⟨a, v, h, ha, hv⟩⟩

/-- An action comes to an answer, if the others leave a state to go on from. -/
theorem exists_yields (hR : ∀ s, ∃ t, R s t) (p : Poll α) : ∃ answer u, p.Yields R answer u := by
  induction p with
  | done given s => exact ⟨given, s, .done⟩
  | wait s rest ih =>
      obtain ⟨t, hothers⟩ := hR s
      obtain ⟨answer, u, h⟩ := ih t
      exact ⟨answer, u, .wait hothers h⟩

/-- What polling gives with nobody else around. -/
theorem Yields.of_finish (hR : ∀ s, R s s) {p : Poll α} {n : Nat}
    (h : p.finish n = (some answer, u)) : p.Yields R answer u := by
  induction p generalizing n with
  | done given s =>
      obtain ⟨rfl, rfl⟩ : given = answer ∧ s = u := by simpa [finish] using h
      exact .done
  | wait s rest ih =>
      cases n with
      | zero => simp [finish] at h
      | succ n => exact .wait (hR s) (ih s h)

end Poll

/-- The same of actions. -/
theorem Action.yields_bind_iff {x : Action α} {f : α → Action β} {answer : Except TemplateError β}
    {s u : State} : ((x >>= f) s).Yields R answer u ↔
      (∃ e, answer = .error e ∧ (x s).Yields R (.error e) u) ∨
        ∃ a t, (x s).Yields R (.ok a) t ∧ (f a t).Yields R answer u :=
  Poll.yields_bind_iff

/-- What two actions come to that go in step is related, if the others can do to the states of the
second one what they do to those of the first one. -/
theorem Likeness.Lockstep.yields {L : Likeness} {Q : L.World → α → β → Prop} {w : L.World}
    {p : Poll α} {p' : Poll β} {answer : Except TemplateError α} {u : State}
    (h : L.Lockstep (fun _ => False) Q w p p')
    (hR : ∀ {v s s' t}, L.state v s s' → R s t → ∃ t', R s' t' ∧ L.state v t t')
    (hp : p.Yields R answer u) : ∃ v u' answer', p'.Yields R answer' u' ∧ L.le w v ∧ L.state v u u' ∧
      Answers L.error (Q v) answer answer' := by
  induction hp generalizing w p' with
  | done =>
      rcases h with ⟨_, _, hfalse, _⟩ | ⟨answer', u', v, rfl, hv, hu, hanswer⟩
      · exact hfalse.elim
      · exact ⟨v, u', answer', .done, hv, hu, hanswer⟩
  | wait hothers _ ih =>
      rcases h with ⟨_, _, hfalse, _⟩ | ⟨s', rest', v, rfl, hv, hs, hrest⟩
      · exact hfalse.elim
      · obtain ⟨t', hothers', ht⟩ := hR hs hothers
        obtain ⟨x, u', answer', hp', hx, hu, hanswer⟩ := ih (hrest v _ t' (L.refl v) ht)
        exact ⟨x, u', answer', .wait hothers' hp', L.trans hv hx, hu, hanswer⟩

end Stencil
