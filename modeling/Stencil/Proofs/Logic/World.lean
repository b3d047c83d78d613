/-
**What actions write, and what they rely on.**

Actions that run at once share one state.  An action can only be understood on its own if it is
known what it may write and what the others leave alone.  A world is a state together with both: the
places that the action may write, and the places that nobody else writes.  What an action makes
belongs to it, so both kinds of places grow while it runs; whoever makes something decides whether
it may still be written.  A place that the action may not write and that nobody else writes is
frozen: what stands there stays.

Main definitions:

* `Stencil.Place`, `Stencil.Place.Kept` — what can be written in a state, and that it was not;
* `Stencil.World` — a state with the places that may be written and those left alone by others;
* `Stencil.World.Step`, `Stencil.World.Rely` — what the action does, and what the others do;
* `Stencil.World.Later` — a world after another one;
* `Stencil.Always` — what holds in all later worlds.

Main results:

* `Stencil.World.Step.trans`, `Stencil.World.Later.trans` — what an action does adds up;
* `Stencil.World.Step.later`, `Stencil.World.Rely.later` — what is known for good survives both.
-/

import Mathlib.Data.Set.Basic
import Stencil.Proofs.Logic.Growth

set_option autoImplicit false

namespace Stencil

/-! ### Places -/

/-- Something in a state that can be written. -/
inductive Place where
  /-- Everything bound in a frame. -/
  | frame (id : FrameId)
  | binding (id : FrameId) (name : String)
  /-- Everything bound in a context. -/
  | context (id : ContextId)
  | member (id : ContextId) (name : String)
  | exported (id : ContextId)
  | blocks (id : ContextId)
  /-- Where it is kept which template a running one extends. -/
  | parent (n : Nat)

namespace Place

/-- Whether a state has a place. -/
def Exists (s : State) : Place → Prop
  | frame id | binding id _ => id < s.frames.size
  | context id | member id _ | exported id | blocks id => id < s.contexts.size
  | parent n => n < s.parents.size

/-- What stands at a place is the same in two states. -/
def Kept (s s' : State) : Place → Prop
  | frame id => (s'.frames[id]?).map Frame.bindings = (s.frames[id]?).map Frame.bindings
  | binding id name =>
    ((s'.frames[id]?).bind fun f => f.bindings.get? name) =
      (s.frames[id]?).bind fun f => f.bindings.get? name
  | context id =>
    (s'.contexts[id]?).map Context.bindings = (s.contexts[id]?).map Context.bindings
  | member id name =>
    ((s'.contexts[id]?).bind fun c => c.bindings.get? name) =
      (s.contexts[id]?).bind fun c => c.bindings.get? name
  | exported id =>
    (s'.contexts[id]?).map Context.exported = (s.contexts[id]?).map Context.exported
  | blocks id => (s'.contexts[id]?).map Context.blocks = (s.contexts[id]?).map Context.blocks
  | parent n => s'.parents[n]? = s.parents[n]?

theorem Kept.refl (s : State) (p : Place) : p.Kept s s := by
  cases p <;> rfl

theorem Kept.trans {s s' s'' : State} {p : Place} (h : p.Kept s s') (h' : p.Kept s' s'') :
    p.Kept s s'' := by
  cases p <;> exact Eq.trans h' h

theorem Exists.mono {s s' : State} (h : s.Grows s') {p : Place} (hp : p.Exists s) :
    p.Exists s' := by
  cases p with
  | frame id | binding id _ => exact Nat.lt_of_lt_of_le hp h.frames.size_le
  | context id | member id _ | exported id | blocks id =>
      exact Nat.lt_of_lt_of_le hp h.contexts.size_le
  | parent n => exact Nat.lt_of_lt_of_le hp h.parents

/-- The places that a state has and an earlier one had not. -/
def made (s s' : State) : Set Place := {p | p.Exists s' ∧ ¬p.Exists s}

end Place

/-! ### Worlds -/

/-- A state with what an action may write in it, and what nobody else writes. -/
structure World where
  state : State
  may : Set Place
  mine : Set Place
  may_exists : ∀ p ∈ may, p.Exists state
  mine_exists : ∀ p ∈ mine, p.Exists state

namespace World

/-- Nobody writes a place any more. -/
def Frozen (w : World) (p : Place) : Prop := p ∈ w.mine ∧ p ∉ w.may

/-- What an action does up to its next rest. -/
structure Step (w w' : World) : Prop where
  grows : w.state.Grows w'.state
  kept : ∀ p : Place, p.Exists w.state → p ∉ w.may → p.Kept w.state w'.state
  may_le : w.may ⊆ w'.may
  may_made : w'.may ⊆ w.may ∪ Place.made w.state w'.state
  mine_le : w.mine ⊆ w'.mine
  mine_made : w'.mine ⊆ w.mine ∪ Place.made w.state w'.state

/-- What others do while an action rests. -/
structure Rely (w w' : World) : Prop where
  grows : w.state.Grows w'.state
  kept : ∀ p ∈ w.mine, p.Kept w.state w'.state
  may : w'.may = w.may
  mine : w'.mine = w.mine

/-- A world after another one. -/
structure Later (w w' : World) : Prop where
  grows : w.state.Grows w'.state
  kept : ∀ p : Place, w.Frozen p → p.Kept w.state w'.state
  may_le : w.may ⊆ w'.may
  may_made : w'.may ⊆ w.may ∪ Place.made w.state w'.state
  mine_le : w.mine ⊆ w'.mine
  mine_made : w'.mine ⊆ w.mine ∪ Place.made w.state w'.state

theorem Step.refl (w : World) : w.Step w where
  grows := .refl _
  kept _ _ _ := .refl _ _
  may_le := subset_rfl
  may_made := Set.subset_union_left
  mine_le := subset_rfl
  mine_made := Set.subset_union_left

theorem Rely.refl (w : World) : w.Rely w where
  grows := .refl _
  kept _ _ := .refl _ _
  may := rfl
  mine := rfl

theorem Later.refl (w : World) : w.Later w where
  grows := .refl _
  kept _ _ := .refl _ _
  may_le := subset_rfl
  may_made := Set.subset_union_left
  mine_le := subset_rfl
  mine_made := Set.subset_union_left

/-- What a first state has is not made after it. -/
theorem made_trans {s s' s'' : State} (h : s.Grows s') (h' : s'.Grows s'') {A B C : Set Place}
    (hB : B ⊆ A ∪ Place.made s s') (hC : C ⊆ B ∪ Place.made s' s'') :
    C ⊆ A ∪ Place.made s s'' := by
  intro p hp
  rcases hC hp with hp | ⟨hin, hout⟩
  · rcases hB hp with hp | ⟨hin, hout⟩
    · exact .inl hp
    · exact .inr ⟨hin.mono h', hout⟩
  · exact .inr ⟨hin, fun hs => hout (hs.mono h)⟩

/-- What an action may not write, and was there, it may still not write later. -/
theorem notMem_of_made {s s' : State} {A B : Set Place} (hB : B ⊆ A ∪ Place.made s s') {p : Place}
    (hs : p.Exists s) (hp : p ∉ A) : p ∉ B := by
  intro h
  rcases hB h with h | h
  · exact hp h
  · exact h.2 hs

theorem Step.trans {w w' w'' : World} (h : w.Step w') (h' : w'.Step w'') : w.Step w'' where
  grows := h.grows.trans h'.grows
  kept p hs hp :=
    (h.kept p hs hp).trans (h'.kept p (hs.mono h.grows) (notMem_of_made h.may_made hs hp))
  may_le := h.may_le.trans h'.may_le
  may_made := made_trans h.grows h'.grows h.may_made h'.may_made
  mine_le := h.mine_le.trans h'.mine_le
  mine_made := made_trans h.grows h'.grows h.mine_made h'.mine_made

theorem Frozen.mono {w w' : World} (h : w.Later w') {p : Place} (hp : w.Frozen p) :
    w'.Frozen p :=
  ⟨h.mine_le hp.1, notMem_of_made h.may_made (w.mine_exists p hp.1) hp.2⟩

theorem Later.trans {w w' w'' : World} (h : w.Later w') (h' : w'.Later w'') : w.Later w'' where
  grows := h.grows.trans h'.grows
  kept p hp := (h.kept p hp).trans (h'.kept p (hp.mono h))
  may_le := h.may_le.trans h'.may_le
  may_made := made_trans h.grows h'.grows h.may_made h'.may_made
  mine_le := h.mine_le.trans h'.mine_le
  mine_made := made_trans h.grows h'.grows h.mine_made h'.mine_made

theorem Step.later {w w' : World} (h : w.Step w') : w.Later w' where
  grows := h.grows
  kept p hp := h.kept p (w.mine_exists p hp.1) hp.2
  may_le := h.may_le
  may_made := h.may_made
  mine_le := h.mine_le
  mine_made := h.mine_made

theorem Rely.later {w w' : World} (h : w.Rely w') : w.Later w' where
  grows := h.grows
  kept p hp := h.kept p hp.1
  may_le := h.may.ge
  may_made := h.may.le.trans Set.subset_union_left
  mine_le := h.mine.ge
  mine_made := h.mine.le.trans Set.subset_union_left

/-- The places of two worlds in the later state. -/
def union (w v : World) (h : w.state.Grows v.state) : World where
  state := v.state
  may := w.may ∪ v.may
  mine := w.mine ∪ v.mine
  may_exists := by
    rintro p (hp | hp)
    · exact (w.may_exists p hp).mono h
    · exact v.may_exists p hp
  mine_exists := by
    rintro p (hp | hp)
    · exact (w.mine_exists p hp).mono h
    · exact v.mine_exists p hp

/-- What an action does that may write less, it does in a world where it could write more. -/
theorem Step.widen {v w v' : World} (hstate : v.state = w.state) (hmay : v.may ⊆ w.may)
    (hmine : v.mine ⊆ w.mine) (h : v.Step v') (hgrows : w.state.Grows v'.state) :
    w.Step (w.union v' hgrows) := by
  rcases v with ⟨s, may, mine, _, _⟩
  obtain rfl : s = w.state := hstate
  have hmade : ∀ {A B C : Set Place}, B ⊆ A ∪ Place.made w.state v'.state → A ⊆ C →
      C ∪ B ⊆ C ∪ Place.made w.state v'.state := by
    intro A B C hB hAC
    refine Set.union_subset Set.subset_union_left (hB.trans ?_)
    exact Set.union_subset_union_left _ hAC
  exact {
    grows := hgrows
    kept := fun p hs hp => h.kept p hs fun hv => hp (hmay hv)
    may_le := Set.subset_union_left
    may_made := hmade h.may_made hmay
    mine_le := Set.subset_union_left
    mine_made := hmade h.mine_made hmine }

end World

/-! ### What holds for good -/

/-- What holds in all later worlds. -/
def Always (p : World → Prop) (w : World) : Prop := ∀ w', w.Later w' → p w'

namespace Always

variable {p q : World → Prop} {w w' : World}

theorem now (h : Always p w) : p w := h w (.refl w)

theorem later (h : Always p w) (hw : w.Later w') : Always p w' :=
  fun w'' h'' => h w'' (hw.trans h'')

theorem mono (h : Always p w) (hpq : ∀ w', p w' → q w') : Always q w :=
  fun w' hw => hpq w' (h w' hw)

theorem and (hp : Always p w) (hq : Always q w) : Always (fun w => p w ∧ q w) w :=
  fun w' hw => ⟨hp w' hw, hq w' hw⟩

theorem of_forall (h : ∀ w, p w) : Always p w := fun w' _ => h w'

end Always

end Stencil
