/-
**What an action ends in, whatever others do while it waits.**

An action that waits is polled again in a state that others changed.  It is known what the action ends
in if that holds for each change that they may make: they may write some frames, those of the others,
and those that they make from then on become theirs too.  Of two actions that run at once each is
another one to the other, so what both end in is known if either writes no frames but its own.

Main definitions:

* `Stencil.Poll.EndsIn` — what a polled action ends in.

Main results:

* `Stencil.Poll.EndsIn.bind` — one action after another;
* `Stencil.Poll.EndsIn.join` — **two actions at once**, each confined to frames that the other one
  takes for those of others.
-/

import Stencil.Proofs.Interleaving.Confinement

set_option autoImplicit false

namespace Stencil

variable {α β γ : Type}

/-- What is said of an answer, of the frames of others and of the state in the end. -/
abbrev Ended (α : Type) := Except TemplateError α → Set FrameId → State → Prop

/-- What a polled action ends in if others, while it waits, write no frames but some and those that they
make. -/
def Poll.EndsIn (A : Ended α) : Set FrameId → Poll α → Prop
  | others, .done answer s => A answer others s
  | others, .wait s rest =>
      ∀ t, s.ChangesOnly others t → (rest t).EndsIn A (others ∪ s.madeFrames t)

/-- Nobody makes a frame without a change of the state. -/
theorem State.madeFrames_self (s : State) : s.madeFrames s = ∅ :=
  Set.eq_empty_iff_forall_notMem.2 fun _ hi => Nat.not_lt.2 hi.1 hi.2

namespace Ended

/-- What is said still holds if fewer frames are those of others. -/
def Antitone (A : Ended α) : Prop :=
  ∀ ⦃answer O O' s⦄, O' ⊆ O → A answer O s → A answer O' s

/-- What is said still holds after others wrote their frames. -/
def Stable (A : Ended α) : Prop :=
  ∀ ⦃answer O s t⦄, A answer O s → s.ChangesOnly O t → A answer (O ∪ s.madeFrames t) t

/-- An error is an error at any time and in any state. -/
def FailsAs (A : Ended α) (B : Ended β) : Prop :=
  ∀ ⦃e O s⦄, A (.error e) O s → ∀ O' s', B (.error e) O' s'

end Ended

namespace Poll.EndsIn

open Ended

variable {A : Ended α} {B : Ended β} {C : Ended γ} {others others' : Set FrameId} {p : Poll α}

theorem mono {A' : Ended α} (h : p.EndsIn A others)
    (hA : ∀ answer O s, others ⊆ O → A answer O s → A' answer O s) : p.EndsIn A' others := by
  induction p generalizing others with
  | done answer s => exact hA _ _ _ subset_rfl h
  | wait s rest ih =>
      intro t ht
      exact ih t (h t ht) fun answer O u hO => hA answer O u (Set.subset_union_left.trans hO)

/-- Fewer frames may be those of others. -/
theorem weaken (h : p.EndsIn A others) (hA : A.Antitone) (hsub : others' ⊆ others) :
    p.EndsIn A others' := by
  induction p generalizing others others' with
  | done answer s => exact hA hsub h
  | wait s rest ih =>
      intro t ht
      exact ih t (h t (ht.mono hsub)) (Set.union_subset_union_left _ hsub)

/-- One action after another. -/
theorem bind {f : α → State → Poll β} (h : p.EndsIn A others)
    (hok : ∀ a O s, A (.ok a) O s → (f a s).EndsIn B O)
    (herror : ∀ e O s, A (.error e) O s → B (.error e) O s) : (p.bind f).EndsIn B others := by
  induction p generalizing others with
  | done answer s =>
      cases answer with
      | ok a => exact hok a _ s h
      | error e => exact herror e _ s h
  | wait s rest ih => exact fun t ht => ih t (h t ht)

/-- The answer and the state are changed. -/
theorem mapAnswer {f : Except TemplateError α → Except TemplateError β} {g : State → State}
    (h : p.EndsIn A others) (hf : ∀ answer O s, A answer O s → B (f answer) O (g s)) :
    (p.mapAnswer f g).EndsIn B others := by
  induction p generalizing others with
  | done answer s => exact hf _ _ s h
  | wait s rest ih => exact fun t ht => ih t (h t ht)

/-- If nobody else runs, an action ends. -/
theorem reached (h : p.EndsIn A others) :
    ∃ n answer s, p.finish n = (some answer, s) ∧ A answer others s := by
  induction p generalizing others with
  | done answer s => exact ⟨0, answer, s, rfl, h⟩
  | wait s rest ih =>
      have hrest := h s (.refl others s)
      rw [State.madeFrames_self, Set.union_empty] at hrest
      obtain ⟨n, answer, t, hfinish, hanswer⟩ := ih s hrest
      exact ⟨n + 1, answer, t, hfinish, hanswer⟩

/-- And whenever it has ended, it ended as is known. -/
theorem finish (h : p.EndsIn A others) {n : Nat} {answer : Except TemplateError α} {s : State}
    (hfinish : p.finish n = (some answer, s)) : A answer others s := by
  induction p generalizing others n with
  | done given t =>
      rw [Poll.finish] at hfinish
      cases hfinish
      exact h
  | wait t rest ih =>
      cases n with
      | zero => cases hfinish
      | succ n =>
          have hrest := h t (.refl others t)
          rw [State.madeFrames_self, Set.union_empty] at hrest
          exact ih t hrest hfinish

/-! ### Actions at once -/

/-- Something that holds before an action is polled again, and that neither it nor others change, is
known in the end. -/
theorem beside {A : Ended α} {B : Ended β} {D : Set FrameId → State → Prop}
    {own others₁ others₂ : Set FrameId} {f : Except TemplateError α → Except TemplateError β}
    {s : State} (hp : p.EndsIn A others₁) (hconfined : p.Confined Anything own s)
    (h₁ : others ⊆ others₁) (h₂ : own ∪ others ⊆ others₂) (hs : D others₂ s)
    (hD : ∀ ⦃O t u⦄, D O t → t.ChangesOnly O u → D (O ∪ t.madeFrames u) u)
    (hB : ∀ ⦃answer O O' t⦄, A answer O t → D O' t → ∀ O'' ⊆ O ∩ O', B (f answer) O'' t) :
    (p.mapAnswer f id).EndsIn B others := by
  induction p generalizing own others others₁ others₂ s with
  | done answer t =>
      have ht := hconfined.1.mono (Set.subset_union_left.trans h₂)
      refine hB hp (hD hs ht) others (Set.subset_inter h₁ ?_)
      exact (Set.subset_union_right.trans h₂).trans Set.subset_union_left
  | wait t rest ih =>
      intro u hu
      have ht := hconfined.1.mono (Set.subset_union_left.trans h₂)
      have hothers := (Set.subset_union_right.trans h₂).trans
        (Set.subset_union_left (t := s.madeFrames t))
      refine ih u (hp u (hu.mono h₁)) (hconfined.2 u hu.size_le) (Set.union_subset_union_left _ h₁)
        ?_ (hD (hD hs ht) (hu.mono hothers))
      rintro i ((hi | hi) | (hi | hi))
      · exact .inl (.inl (h₂ (.inl hi)))
      · exact .inl (.inr hi)
      · exact .inl (.inl (h₂ (.inr hi)))
      · exact .inr hi

/-- Two actions at once, of which the first was polled already in this round.  Each is confined to
frames that are those of others to the other one. -/
theorem join {own₁ own₂ others₁ others₂ : Set FrameId} {q : State → Poll β} {s : State}
    {C : Ended (α × β)} (hp : p.EndsIn A others₁) (hpconfined : p.Confined Anything own₁ s)
    (hq : ∀ t, s.ChangesOnly others₂ t → (q t).EndsIn B (others₂ ∪ s.madeFrames t))
    (hqconfined : ∀ t, s.frames.size ≤ t.frames.size → (q t).Confined Anything own₂ t)
    (h₁ : own₂ ∪ others ⊆ others₁) (h₂ : own₁ ∪ others ⊆ others₂)
    (hA : A.FailsAs C) (hB : B.FailsAs C) (hstable : B.Stable) (hantitone : C.Antitone)
    (hC : ∀ ⦃a b O O' s t⦄, A (.ok a) O s → B (.ok b) O' t → C (.ok (a, b)) O' t) :
    (p.join q).EndsIn C others := by
  induction p generalizing own₁ own₂ others others₁ others₂ s q with
  | done answer t =>
      cases answer with
      | error e => exact hA hp _ _
      | ok a =>
          have ht := hpconfined.1.mono (Set.subset_union_left.trans h₂)
          have hboth : ((q t).map fun b => (a, b)).EndsIn C (others₂ ∪ s.madeFrames t) := by
            refine (hq t ht).mapAnswer fun answer O u h => ?_
            cases answer with
            | ok b => exact hC hp h
            | error e => exact hB h _ _
          exact hboth.weaken hantitone
            ((Set.subset_union_right.trans h₂).trans Set.subset_union_left)
  | wait t rest ih =>
      obtain ⟨ht, hrest⟩ := hpconfined
      have hnow := hq t (ht.mono (Set.subset_union_left.trans h₂))
      have hnowconfined := hqconfined t ht.size_le
      simp only [Poll.join]
      -- the second action is another one to the first, and so are those that are others to both
      have hothers : ∀ {u v : State}, t.ChangesOnly own₂ u → u.ChangesOnly others v →
          t.ChangesOnly others₁ v := fun hu hv =>
        (hu.mono (Set.subset_union_left.trans h₁)).trans
          (hv.mono ((Set.subset_union_right.trans h₁).trans Set.subset_union_left))
      cases hcase : q t with
      | done answer u =>
          rw [hcase] at hnow hnowconfined
          cases answer with
          | error e => exact hB hnow _ _
          | ok b =>
              intro v hv
              have hresume := hothers hnowconfined.1 hv
              have hkept := (Set.subset_union_right.trans h₂).trans
                (Set.subset_union_left (t := s.madeFrames t))
              -- the second action is done, and nothing that the first one does matters to it
              refine beside (D := fun O x => B (.ok b) O x) (f := Except.map fun a => (a, b))
                (hp v hresume) (hrest v hresume.size_le) ?_ ?_ (hstable hnow (hv.mono hkept))
                (fun _ _ _ h hx => hstable h hx) fun answer O O' x h hx O'' hO'' => ?_
              · rintro i (hi | hi)
                · exact .inl (h₁ (.inr hi))
                · exact .inr ⟨Nat.le_trans hnowconfined.1.size_le hi.1, hi.2⟩
              · rintro i ((hi | hi) | (hi | hi))
                · exact .inl (.inl (h₂ (.inl hi)))
                · exact .inl (.inr hi)
                · exact .inl (.inl (h₂ (.inr hi)))
                · exact .inr hi
              · cases answer with
                | ok a => exact hantitone (hO''.trans Set.inter_subset_right) (hC h hx)
                | error e => exact hA h _ _
      | wait u restq =>
          rw [hcase] at hnow hnowconfined
          intro v hv
          have hresume := hothers hnowconfined.1 hv
          have hkept := (Set.subset_union_right.trans h₂).trans
            (Set.subset_union_left (t := s.madeFrames t))
          have hthen : ∀ x, v.ChangesOnly (others₂ ∪ s.madeFrames t ∪ u.madeFrames v) x →
              (restq x).EndsIn B
                (others₂ ∪ s.madeFrames t ∪ u.madeFrames v ∪ v.madeFrames x) := by
            intro x hx
            have hall := hnow x ((hv.mono hkept).trans hx)
            rwa [State.madeFrames_union hv.size_le hx.size_le]
          refine ih v (hp v hresume) (hrest v hresume.size_le) hthen
            (fun x hx => hnowconfined.2 x (Nat.le_trans hv.size_le hx)) ?_ ?_
          · rintro i ((hi | hi) | (hi | hi))
            · exact .inl (h₁ (.inl hi))
            · exact .inr ⟨hi.1, Nat.lt_of_lt_of_le hi.2 hv.size_le⟩
            · exact .inl (h₁ (.inr hi))
            · exact .inr ⟨Nat.le_trans hnowconfined.1.size_le hi.1, hi.2⟩
          · rintro i ((hi | hi) | (hi | hi))
            · exact .inl (.inl (h₂ (.inl hi)))
            · exact .inl (.inr hi)
            · exact .inl (.inl (h₂ (.inr hi)))
            · exact .inr hi

end Poll.EndsIn

end Stencil
