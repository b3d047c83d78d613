/-
**Runs compared step by step.**

Two polled actions go in step if each wait of one is a wait of the other, and in the end both give
related answers from related states.  The second one is a reference: it may give up with some
errors, and nothing is asked from then on.

Main definitions:

* `Stencil.Likeness.Lockstep` — two polled actions that go in step;
* `Stencil.Likeness.lockstep` — the mirror that compares runs so.

Main results:

* `Stencil.Likeness.Lockstep.join` — actions that run at once go in step if each of them does;
* `Stencil.Likeness.Lockstep.finish` — what is known of two actions that are polled until they
  answer.
-/

import Stencil.Proofs.Mirror.Runs

set_option autoImplicit false

namespace Stencil

namespace Likeness

variable (L : Likeness) (stray : Cause → Prop)

/-- Two polled actions that go in step, unless the second one gives up. -/
def Lockstep {α β : Type} (Q : L.World → α → β → Prop) : L.World → Poll α → Poll β → Prop
  | w, .done answer s, q => (∃ e t, stray e.cause ∧ q = .done (.error e) t) ∨
      ∃ answer' s' v, q = .done answer' s' ∧ L.le w v ∧ L.state v s s' ∧
        Answers L.error (Q v) answer answer'
  | w, .wait s rest, q => (∃ e t, stray e.cause ∧ q = .done (.error e) t) ∨
      ∃ s' rest' v, q = .wait s' rest' ∧ L.le w v ∧ L.state v s s' ∧
        ∀ u t t', L.le v u → L.state u t t' → Lockstep Q u (rest t) (rest' t')

namespace Lockstep

variable {L stray} {α β γ δ : Type} {Q : L.World → α → β → Prop} {S : L.World → γ → δ → Prop}
  {w v : L.World} {p : Poll α} {p' : Poll β}

theorem of_stray {e : TemplateError} {t : State} (he : stray e.cause) :
    L.Lockstep stray Q w p (.done (.error e) t) := by
  cases p <;> exact .inl ⟨e, t, he, rfl⟩

theorem earlier (hw : L.le w v) (h : L.Lockstep stray Q v p p') : L.Lockstep stray Q w p p' := by
  cases p with
  | done answer s =>
      rcases h with h | ⟨answer', s', u, hp, hu, h⟩
      · exact .inl h
      · exact .inr ⟨answer', s', u, hp, L.trans hw hu, h⟩
  | wait s rest =>
      rcases h with h | ⟨s', rest', u, hp, hu, h⟩
      · exact .inl h
      · exact .inr ⟨s', rest', u, hp, L.trans hw hu, h⟩

/-- Results that are related in one way may be related in another one. -/
theorem mono {S : L.World → α → β → Prop} (h : L.Lockstep stray Q w p p')
    (hS : ∀ {v a a'}, Q v a a' → S v a a') : L.Lockstep stray S w p p' := by
  induction p generalizing w p' with
  | done answer s =>
      rcases h with h | ⟨answer', s', v, rfl, hv, hs, h⟩
      · exact .inl h
      · refine .inr ⟨answer', s', v, rfl, hv, hs, ?_⟩
        cases h with
        | ok h => exact .ok (hS h)
        | error h => exact .error h
  | wait s rest ih =>
      rcases h with h | ⟨s', rest', v, rfl, hv, hs, h⟩
      · exact .inl h
      · exact .inr ⟨s', rest', v, rfl, hv, hs, fun u t t' hu ht => ih t (h u t t' hu ht)⟩

theorem bind {f : α → State → Poll γ} {f' : β → State → Poll δ} (h : L.Lockstep stray Q w p p')
    (hf : ∀ {v a a' s s'}, L.le w v → L.state v s s' → Q v a a' →
      L.Lockstep stray S v (f a s) (f' a' s')) :
    L.Lockstep stray S w (p.bind f) (p'.bind f') := by
  induction p generalizing w p' with
  | done answer s =>
      rcases h with ⟨e, t, he, rfl⟩ | ⟨answer', s', v, rfl, hv, hs, h⟩
      · exact of_stray he
      · cases h with
        | ok h => exact earlier hv (hf hv hs h)
        | error h => exact .inr ⟨_, _, v, rfl, hv, hs, .error h⟩
  | wait s rest ih =>
      rcases h with ⟨e, t, he, rfl⟩ | ⟨s', rest', v, rfl, hv, hs, h⟩
      · exact of_stray he
      · exact .inr ⟨_, _, v, rfl, hv, hs, fun u t t' hu ht =>
          ih t (h u t t' hu ht) fun hw => hf (L.trans hv (L.trans hu hw))⟩

/-- The answers and the states with them are changed. -/
theorem mapAnswer {f : Except TemplateError α → Except TemplateError γ}
    {f' : Except TemplateError β → Except TemplateError δ} {g g' : State → State}
    (h : L.Lockstep stray Q w p p')
    (hf : ∀ {v a a'}, Answers L.error (Q v) a a' → Answers L.error (S v) (f a) (f' a'))
    (hg : ∀ {v s s'}, L.state v s s' → L.state v (g s) (g' s'))
    (hstray : ∀ e : TemplateError, stray e.cause → ∃ e', f' (.error e) = .error e' ∧ stray e'.cause) :
    L.Lockstep stray S w (p.mapAnswer f g) (p'.mapAnswer f' g') := by
  induction p generalizing w p' with
  | done answer s =>
      rcases h with ⟨e, t, he, rfl⟩ | ⟨answer', s', v, rfl, hv, hs, h⟩
      · obtain ⟨e', he', hstray'⟩ := hstray e he
        exact .inl ⟨e', g' t, hstray', by rw [Poll.mapAnswer, he']⟩
      · exact .inr ⟨_, _, v, rfl, hv, hg hs, hf h⟩
  | wait s rest ih =>
      rcases h with ⟨e, t, he, rfl⟩ | ⟨s', rest', v, rfl, hv, hs, h⟩
      · obtain ⟨e', he', hstray'⟩ := hstray e he
        exact .inl ⟨e', g' t, hstray', by rw [Poll.mapAnswer, he']⟩
      · exact .inr ⟨_, _, v, rfl, hv, hs, fun u t t' hu ht => ih t (h u t t' hu ht)⟩

theorem map {T : α → β → Prop} {U : γ → δ → Prop} {f : α → γ} {f' : β → δ}
    (h : L.Lockstep stray (fun _ => T) w p p') (hf : ∀ a a', T a a' → U (f a) (f' a')) :
    L.Lockstep stray (fun _ => U) w (p.map f) (p'.map f') :=
  h.mapAnswer (fun h => h.map hf) (fun h => h) fun e he => ⟨e, rfl, he⟩

/-- Two actions that run at once, of which the first was polled already in this round. -/
theorem join {T : α → β → Prop} {U : γ → δ → Prop} {q : State → Poll γ} {q' : State → Poll δ}
    (hp : L.Lockstep stray (fun _ => T) w p p')
    (hq : ∀ u t t', L.le w u → L.state u t t' → L.Lockstep stray (fun _ => U) u (q t) (q' t')) :
    L.Lockstep stray (fun _ ab ab' => T ab.1 ab'.1 ∧ U ab.2 ab'.2) w (p.join q) (p'.join q') := by
  -- By induction on the first pair, which waits in both runs or in none.  A round polls the second pair after
  -- it, and what waits then goes on in the next round.
  induction p generalizing w p' q q' with
  | done answer s =>
      rcases hp with ⟨e, t, he, rfl⟩ | ⟨answer', s', v, rfl, hv, hs, h⟩
      · exact of_stray he
      · cases h with
        | error h => exact .inr ⟨_, _, v, rfl, hv, hs, .error h⟩
        | ok h => exact earlier hv ((hq v s s' hv hs).map fun b b' hb => ⟨h, hb⟩)
  | wait s rest ih =>
      rcases hp with ⟨e, t, he, rfl⟩ | ⟨s', rest', v, rfl, hv, hs, hrest⟩
      · exact of_stray he
      · have hnow := hq v s s' hv hs
        simp only [Poll.join]
        cases hcase : q s with
        | done answer t =>
            rw [hcase] at hnow
            rcases hnow with ⟨e, t', he, hgive⟩ | ⟨answer', t', u, hdone, hu, ht, h⟩
            · rw [hgive]
              exact of_stray he
            · rw [hdone]
              cases h with
              | error h => exact .inr ⟨_, _, u, rfl, L.trans hv hu, ht, .error h⟩
              | ok h =>
                  refine .inr ⟨_, _, u, rfl, L.trans hv hu, ht, fun r x x' hr hx => ?_⟩
                  exact (hrest r x x' (L.trans hu hr) hx).map fun a a' ha => ⟨ha, h⟩
        | wait t restq =>
            rw [hcase] at hnow
            rcases hnow with ⟨e, t', he, hgive⟩ | ⟨t', restq', u, hwait, hu, ht, hrestq⟩
            · rw [hgive]
              exact of_stray he
            · rw [hwait]
              refine .inr ⟨_, _, u, rfl, L.trans hv hu, ht, fun r x x' hr hx => ?_⟩
              exact ih x (hrest r x x' (L.trans hu hr) hx) fun y z z' hy hz =>
                hrestq y z z' (L.trans hr hy) hz

/-- Two actions that are polled at most so often. -/
theorem finish (h : L.Lockstep stray Q w p p') (n : Nat) :
    (∃ e t, stray e.cause ∧ p'.finish n = (some (.error e), t)) ∨
      ∃ v, L.le w v ∧ L.state v (p.finish n).2 (p'.finish n).2 ∧
        Option.Rel (Answers L.error (Q v)) (p.finish n).1 (p'.finish n).1 := by
  induction p generalizing n w p' with
  | done answer s =>
      rcases h with ⟨e, t, he, rfl⟩ | ⟨answer', s', v, rfl, hv, hs, h⟩
      · exact .inl ⟨e, t, he, by cases n <;> rfl⟩
      · exact .inr ⟨v, hv, by cases n <;> exact ⟨hs, .some h⟩⟩
  | wait s rest ih =>
      rcases h with ⟨e, t, he, rfl⟩ | ⟨s', rest', v, rfl, hv, hs, h⟩
      · exact .inl ⟨e, t, he, by cases n <;> rfl⟩
      · cases n with
        | zero => exact .inr ⟨v, hv, hs, .none⟩
        | succ n =>
            rcases ih s (h v s s' (L.refl v) hs) n with hstray | ⟨u, hu, hrest⟩
            · exact .inl hstray
            · exact .inr ⟨u, L.trans hv hu, hrest⟩

end Lockstep

/-- The mirror that compares runs step by step. -/
def lockstep : Mirror where
  toLikeness := L
  poll := L.Lockstep stray
  ok hv hs h := .inr ⟨_, _, _, rfl, hv, hs, .ok h⟩
  failed hv hs h := .inr ⟨_, _, _, rfl, hv, hs, .error h⟩
  bind := Lockstep.bind
  located hq h := by
    refine h.mapAnswer (fun h => ?_) (fun h => h) fun e he => ⟨_, rfl, he⟩
    cases h with
    | ok h => exact .ok h
    | error h => exact .error (L.locate hq h)
  passed name h := by
    refine h.mapAnswer (fun h => ?_) (fun h => h) fun e he =>
      ⟨_, rfl, (e.cause_through name).symm ▸ he⟩
    cases h with
    | ok h => exact .ok h
    | error h => exact .error (L.through name h)
  changed hg h := h.mapAnswer (fun h => h) hg fun e he => ⟨e, rfl, he⟩

/-- Actions that run at once go in step if each of them does. -/
theorem lockstep_join {w : L.World} {xs xs' : List (Action String)}
    (h : List.Forall₂ (fun x x' => (L.lockstep stray).Acts w x x' (L.lockstep stray).Equal) xs xs') :
    (L.lockstep stray).Acts w (Action.join xs) (Action.join xs') (L.lockstep stray).Equal := by
  induction h with
  | nil => exact .pure fun _ _ => rfl
  | cons hx _ ih =>
      intro v s s' hv hs
      refine (Lockstep.join (hx v s s' hv hs) fun u t t' hu ht =>
        ih u t t' (L.trans hv hu) ht).map fun ab ab' h => ?_
      exact congrArg₂ List.cons h.1 h.2

end Likeness

end Stencil
