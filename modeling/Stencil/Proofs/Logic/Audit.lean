/-
**Actions that are watched.**

What an action writes can be watched from outside: each time it is polled, the state before is compared
with the state after, and the action is stopped if a place changed that was there when the action
began and that it was not allowed to change.  What others write between two polls is not compared.  An
action that is known to write no more than it is allowed to does the same whether it is watched or not.

Main definitions:

* `Stencil.State.Respects` — a change of a state that keeps what may not be changed;
* `Stencil.Poll.audit`, `Stencil.Action.audit` — an action that is watched;
* `Stencil.World.restrict` — a world in which less may be written.

Main results:

* `Stencil.Policy.Follows.audit` — **watching changes nothing** for an action that writes what it may;
* `Stencil.Policy.Triple.audit` — the same for an action that starts anywhere.
-/

import Stencil.Proofs.Logic.Triple

set_option autoImplicit false

namespace Stencil

/-! ### Watching -/

/-- A change of a state that keeps what was there at the start, but for the places allowed. -/
def State.Respects (allowed : Set Place) (start s s' : State) : Prop :=
  ∀ p : Place, p.Exists start → p ∉ allowed → p.Kept s s'

open Classical in
/-- A polled action that is watched: it fails as soon as it changes what it may not. -/
noncomputable def Poll.audit {α : Type} (violation : Cause) (allowed : Set Place) (start : State) :
    State → Poll α → Poll α
  | s, .done answer s' =>
    if start.Respects allowed s s' then .done answer s'
    else .done (.error (.ofCause violation)) s'
  | s, .wait s' rest =>
    if start.Respects allowed s s' then
      .wait s' fun s'' => (rest s'').audit violation allowed start s''
    else .done (.error (.ofCause violation)) s'

/-- An action that is watched from where it starts. -/
noncomputable def Action.audit {α : Type} (violation : Cause) (allowed : Set Place)
    (x : Action α) : Action α := fun s => (x s).audit violation allowed s s

/-! ### Watching changes nothing -/

/-- The world in which an action may write only what is allowed. -/
def World.restrict (w : World) (allowed : Set Place) : World where
  state := w.state
  may := w.may ∩ allowed
  mine := w.mine
  may_exists p hp := w.may_exists p hp.1
  mine_exists := w.mine_exists

namespace Policy

variable {π : Policy} {α : Type} {allowed : Set Place}

/-- Watching changes nothing for an action that writes only what is allowed and what it made. -/
theorem Follows.audit (violation : Cause) (hstray : ∀ c, ¬π.stray c) {post : α → World → Prop}
    {start : State} {w : World} {p q : Poll α} (h : π.Follows post w p q)
    (hstart : start.Grows w.state) (hmay : w.may ⊆ allowed ∪ Place.made start w.state) :
    π.Follows post w p (q.audit violation allowed start w.state) := by
  -- what was there at the start is not written, and what is made later was not there
  have hstep : ∀ {w w' : World}, start.Grows w.state →
      w.may ⊆ allowed ∪ Place.made start w.state → w.Step w' →
        start.Respects allowed w.state w'.state ∧
          w'.may ⊆ allowed ∪ Place.made start w'.state := by
    intro w w' hstart hmay hw
    refine ⟨fun p hp hallowed => hw.kept p (hp.mono hstart) ?_, ?_⟩
    · exact World.notMem_of_made hmay hp hallowed
    · exact World.made_trans hstart hw.grows hmay hw.may_made
  induction p generalizing w q with
  | done answer s =>
      intro hl
      rcases h hl with ⟨_, _, he, _⟩ | ⟨rfl, hs, w', hw, rfl, hout⟩
      · exact absurd he (hstray _)
      · obtain ⟨hrespects, _⟩ := hstep hstart hmay hw
        refine .inr ⟨?_, hs, w', hw, rfl, hout⟩
        rw [Poll.audit, if_pos hrespects]
  | wait s rest ih =>
      intro hl
      rcases h hl with ⟨_, _, he, _⟩ | ⟨rest', rfl, hs, w', hw, rfl, hrest⟩
      · exact absurd he (hstray _)
      · obtain ⟨hrespects, hmay'⟩ := hstep hstart hmay hw
        refine .inr ⟨fun s'' => (rest' s'').audit violation allowed start s'', ?_, hs, w', hw, rfl,
          fun w'' hw'' hl'' hs'' => ?_⟩
        · rw [Poll.audit, if_pos hrespects]
        · refine ih _ (hrest w'' hw'' hl'' hs'') (hstart.trans (hw.grows.trans hw''.grows)) ?_
          rw [hw''.may]
          exact World.made_trans (hstart.trans hw.grows) hw''.grows hmay' Set.subset_union_left

/-- Watching changes nothing for an action that also goes through where it may only write what is
allowed. -/
theorem Triple.audit (violation : Cause) (hstray : ∀ c, ¬π.stray c) {pre pre' : World → Prop}
    {Q : α → Prop} {x x' : Action α} (h : π.Triple pre' x x' fun a _ => Q a)
    (hpre : ∀ w, Always pre w → Always pre' (w.restrict allowed)) :
    π.Triple pre x (x'.audit violation allowed) fun a _ => Q a := by
  refine ⟨h.1, fun w hl hs hw => ?_⟩
  have hx := h.2 (w.restrict allowed) hl hs (hpre w hw)
  have haudit := hx.audit violation hstray (.refl _)
    (Set.inter_subset_right.trans Set.subset_union_left)
  refine (haudit.narrow (w := w) rfl Set.inter_subset_left subset_rfl).mono fun a w' _ ha => ?_
  obtain ⟨v', _, _, hQ⟩ := ha
  exact .of_forall fun _ => hQ.now

end Policy

end Stencil
