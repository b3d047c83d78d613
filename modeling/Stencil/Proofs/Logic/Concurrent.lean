/-
**Actions that run at once.**

Actions that run at once are polled in turn.  What each of them does in its turn, the others have to
live with: they rely on the places that are theirs being left alone.  So the world is split: each
action gets the places that all of them may write, and calls its own what is frozen for all of them
and what it makes itself.

Main definitions:

* `Stencil.World.Split` — two worlds in which a third one is shared;
* `Stencil.World.shared` — the world as each of several actions gets it.

Main results:

* `Stencil.Policy.Follows.join` — two actions at once, the first of which was polled already;
* `Stencil.Policy.Triple.join` — the actions of a list at once.
-/

import Stencil.Proofs.Logic.Triple

set_option autoImplicit false

namespace Stencil

/-! ### Splitting worlds -/

namespace World

theorem Rely.trans {w w' w'' : World} (h : w.Rely w') (h' : w'.Rely w'') : w.Rely w'' where
  grows := h.grows.trans h'.grows
  kept p hp := (h.kept p hp).trans (h'.kept p (h.mine ▸ hp))
  may := h'.may.trans h.may
  mine := h'.mine.trans h.mine

/-- Two worlds in which a third one is shared: neither action writes what is the other's. -/
structure Split (v u w : World) : Prop where
  left : v.state = w.state
  right : u.state = w.state
  left_apart : ∀ p ∈ v.mine, p ∉ u.may
  right_apart : ∀ p ∈ u.mine, p ∉ v.may
  may_left : v.may ⊆ w.may
  may_right : u.may ⊆ w.may
  mine_left : v.mine ⊆ w.mine
  mine_right : u.mine ⊆ w.mine

namespace Split

variable {v u w : World}

theorem symm (h : v.Split u w) : u.Split v w :=
  ⟨h.right, h.left, h.right_apart, h.left_apart, h.may_right, h.may_left, h.mine_right,
    h.mine_left⟩

/-- After a step of the first action the world is still split, and the second one relies on what it
may. -/
theorem step (h : v.Split u w) {v' : World} (hv : v.Step v') (hu : u.state.Grows v'.state)
    (hw : w.state.Grows v'.state) :
    v'.Split (u.move v'.state hu) (w.union v' hw) ∧ u.Rely (u.move v'.state hu) ∧
      w.Step (w.union v' hw) := by
  have hnew : ∀ {A B : Set Place} {p : Place}, p ∈ A ∪ Place.made v.state v'.state → p ∈ B →
      (∀ p ∈ B, p.Exists u.state) → (∀ p ∈ A, p ∉ B) → False := by
    intro A B p hp hB hBu hAB
    rcases hp with hp | hp
    · exact hAB p hp hB
    · have hexists := hBu p hB
      rw [h.right, ← h.left] at hexists
      exact hp.2 hexists
  refine ⟨?_, ?_, hv.widen h.left h.may_left h.mine_left hw⟩
  · exact {
      left := rfl
      right := rfl
      left_apart := fun p hp hup => hnew (hv.mine_made hp) hup u.may_exists h.left_apart
      right_apart := fun p hp hvp =>
        hnew (hv.may_made hvp) hp u.mine_exists fun q hq hqu => h.right_apart q hqu hq
      may_left := Set.subset_union_right
      may_right := h.may_right.trans Set.subset_union_left
      mine_left := Set.subset_union_right
      mine_right := h.mine_right.trans Set.subset_union_left }
  · refine { grows := hu, kept := fun p hp => ?_, may := rfl, mine := rfl }
    have hexists := u.mine_exists p hp
    have hkept := hv.kept p (by rwa [h.left, ← h.right]) (h.right_apart p hp)
    rwa [h.left, ← h.right] at hkept

/-- What others do to the shared world, each of both actions may rely on. -/
theorem rely (h : v.Split u w) {w' : World} (hw : w.Rely w') (hv : v.state.Grows w'.state)
    (hu : u.state.Grows w'.state) :
    (v.move w'.state hv).Split (u.move w'.state hu) w' ∧ v.Rely (v.move w'.state hv) ∧
      u.Rely (u.move w'.state hu) := by
  refine ⟨?_, ?_, ?_⟩
  · exact {
      left := rfl
      right := rfl
      left_apart := h.left_apart
      right_apart := h.right_apart
      may_left := h.may_left.trans hw.may.ge
      may_right := h.may_right.trans hw.may.ge
      mine_left := h.mine_left.trans hw.mine.ge
      mine_right := h.mine_right.trans hw.mine.ge }
  · refine { grows := hv, kept := fun p hp => ?_, may := rfl, mine := rfl }
    have hkept := hw.kept p (h.mine_left hp)
    rwa [← h.left] at hkept
  · refine { grows := hu, kept := fun p hp => ?_, may := rfl, mine := rfl }
    have hkept := hw.kept p (h.mine_right hp)
    rwa [← h.right] at hkept

end Split

/-- The world as each of several actions gets it that run at once. -/
def shared (w : World) : World where
  state := w.state
  may := w.may
  mine := w.mine \ w.may
  may_exists := w.may_exists
  mine_exists p hp := w.mine_exists p hp.1

theorem shared_split (w : World) : w.shared.Split w.shared w where
  left := rfl
  right := rfl
  left_apart _ hp := hp.2
  right_apart _ hp := hp.2
  may_left := subset_rfl
  may_right := subset_rfl
  mine_left _ hp := hp.1
  mine_right _ hp := hp.1

end World

/-- What is known in a world and does not depend on what is the action's own, is known in the world
that it shares. -/
theorem Always.shared {pre : World → Prop} {w : World}
    (hpre : ∀ v u : World, u.state = v.state → u.may = v.may → (∀ p, v.Frozen p → u.Frozen p) →
      pre v → pre u)
    (h : Always pre w) : Always pre w.shared := by
  intro u hu
  let v : World := ⟨u.state, u.may, w.mine ∪ u.mine, u.may_exists, by
    rintro p (hp | hp)
    · exact (w.mine_exists p hp).mono hu.grows
    · exact u.mine_exists p hp⟩
  have hlater : w.Later v :=
    { grows := hu.grows
      kept := fun p hp => hu.kept p ⟨hp, hp.2⟩
      may_le := hu.may_le
      may_made := hu.may_made
      mine_le := Set.subset_union_left
      mine_made := by
        refine Set.union_subset Set.subset_union_left (hu.mine_made.trans ?_)
        exact Set.union_subset_union_left _ fun _ hp => hp.1 }
  refine hpre v u rfl rfl ?_ (h v hlater)
  rintro p ⟨hp | hp, hmay⟩
  · exact ⟨hu.mine_le ⟨hp, fun hw => hmay (hu.may_le hw)⟩, hmay⟩
  · exact ⟨hp, hmay⟩

namespace Policy

variable {π : Policy} {α β : Type}

/-! ### Two actions -/

/-- Two actions at once, the first of which was polled already. -/
theorem Follows.join {Q : α → Prop} {R : β → Prop} {p p' : Poll α} {q q' : State → Poll β}
    {v u w : World} (hsplit : v.Split u w) (hp : π.Follows (fun a _ => Q a) v p p')
    (hpclimbs : p.Climbs v.state)
    (hq : ∀ u', u.Rely u' → π.Loaded u'.state → π.Sound u'.state →
      π.Follows (fun b _ => R b) u' (q u'.state) (q' u'.state))
    (hqclimbs : ∀ s', u.state.Grows s' → (q s').Climbs s') :
    π.Follows (fun ab _ => Q ab.1 ∧ R ab.2) w (p.join q) (p'.join q') := by
  have hvu : v.state = u.state := hsplit.left.trans hsplit.right.symm
  -- By induction on the first action.  Neither action writes what is the other's, so that a step of one is
  -- nothing but what the other one relies on (`Split.step`), and after it the world is split as before.
  induction p generalizing p' q q' v u w with
  | done answer s =>
      have hgrows : u.state.Grows s := hvu ▸ hpclimbs
      cases answer with
      | error e =>
          intro hl
          rcases hp hl with ⟨e', s', he, rfl⟩ | ⟨rfl, hs, v', hv, rfl, hout⟩
          · exact .inl ⟨e', s', he, rfl⟩
          · obtain ⟨_, _, hw⟩ := hsplit.step hv hgrows (hsplit.left ▸ hv.grows)
            exact .inr ⟨rfl, hs, _, hw, rfl, hout⟩
      | ok a =>
          refine Follows.of_loaded ((hqclimbs s hgrows).map _) fun hl => ?_
          rcases hp hl with ⟨e', s', he, rfl⟩ | ⟨rfl, hs, v', hv, rfl, hout⟩
          · exact Follows.of_givesUp ⟨e', s', he, rfl⟩
          · obtain ⟨hsplit', hrely, hw⟩ := hsplit.step hv hgrows (hsplit.left ▸ hv.grows)
            have hnow := hq _ hrely hl hs
            refine Follows.of_step hw (Follows.widen (v := u.move _ hgrows) ?_ rfl
              hsplit'.may_right hsplit'.mine_right)
            exact hnow.map fun b w' hb => ⟨hout, hb⟩
  | wait s rest ih =>
      have hgrows : u.state.Grows s := hvu ▸ hpclimbs.1
      have hclimbs : ((Poll.wait s rest).join q).Climbs s :=
        Poll.Climbs.join ⟨.refl s, hpclimbs.2⟩ fun s' hs' => hqclimbs s' (hgrows.trans hs')
      refine Follows.of_loaded hclimbs fun hl => ?_
      rcases hp hl with ⟨e', s', he, rfl⟩ | ⟨rest', rfl, hs, v', hv, rfl, hrest⟩
      · exact Follows.of_givesUp ⟨e', s', he, rfl⟩
      · obtain ⟨hsplit', hrely, hw⟩ := hsplit.step hv hgrows (hsplit.left ▸ hv.grows)
        have hnow := hq _ hrely hl hs
        have hqc : (q v'.state).Climbs v'.state := hqclimbs _ hgrows
        simp only [Poll.join]
        change π.Follows _ _ (q v'.state) (q' v'.state) at hnow
        cases hcase : q v'.state with
        | done answer t =>
            rw [hcase] at hnow hqc
            cases answer with
            | error e =>
                intro hl'
                rcases hnow hl' with ⟨e', s', he, hgive⟩ | ⟨hdone, hs', u', hu, rfl, hout⟩
                · exact .inl ⟨e', s', he, by simp only [hgive]⟩
                · have hw' := (hsplit'.symm.step hu hqc hqc).2.2
                  refine .inr ⟨by simp only [hdone], hs', _, hw.trans hw', rfl, hout⟩
            | ok b =>
                intro hl'
                rcases hnow hl' with ⟨e', s', he, hgive⟩ | ⟨hdone, hs', u', hu, rfl, hout⟩
                · exact .inl ⟨e', s', he, by simp only [hgive]⟩
                · obtain ⟨hsplit₂, hrely₂, hw'⟩ := hsplit'.symm.step hu hqc hqc
                  refine .inr ⟨fun s => (rest' s).map fun a => (a, b), by simp only [hdone], hs', _,
                    hw.trans hw', rfl, ?_⟩
                  intro w₃ hw₃ hl₃ hs₃
                  obtain ⟨hsplit₃, _, hrely₃⟩ := hsplit₂.rely hw₃ hw₃.grows hw₃.grows
                  have hrest₃ := hrest _ (hrely₂.trans hrely₃) hl₃ hs₃
                  have hpair : π.Follows (fun (ab : α × β) _ => Q ab.1 ∧ R ab.2) _ _ _ :=
                    hrest₃.map (f := fun a => (a, b)) fun a w' ha => ⟨ha, hout⟩
                  exact hpair.widen rfl hsplit₃.may_right hsplit₃.mine_right
        -- both wait, and each of them keeps its part of the world until it is polled again
        | wait t restq =>
            rw [hcase] at hnow hqc
            intro hl'
            rcases hnow hl' with ⟨e', s', he, hgive⟩ | ⟨restq', hwait, hs', u', hu, rfl, hrestq⟩
            · exact .inl ⟨e', s', he, by simp only [hgive]⟩
            · obtain ⟨hsplit₂, hrely₂, hw'⟩ := hsplit'.symm.step hu hqc.1 hqc.1
              refine .inr ⟨fun s => (rest' s).join restq', by simp only [hwait], hs', _,
                hw.trans hw', rfl, ?_⟩
              intro w₃ hw₃ hl₃ hs₃
              obtain ⟨hsplit₃, hrelyq, hrelyp⟩ := hsplit₂.rely hw₃ hw₃.grows hw₃.grows
              have hgrows₃ : v'.state.Grows w₃.state := hqc.1.trans hw₃.grows
              refine ih w₃.state hsplit₃.symm (hrest _ (hrely₂.trans hrelyp) hl₃ hs₃)
                (hpclimbs.2 _ hgrows₃) ?_ ?_ rfl
              · exact fun u₄ hu₄ => hrestq u₄ (hrelyq.trans hu₄)
              · exact fun s' hs' => hqc.2 s' (State.Grows.trans hw₃.grows hs')

/-! ### The actions of a list -/

/-- The actions of a list at once. -/
theorem Triple.join {γ : Type} {f f' : γ → Action α} {Q : α → Prop} {pre : World → Prop}
    (hpre : ∀ v u : World, u.state = v.state → u.may = v.may → (∀ p, v.Frozen p → u.Frozen p) →
      pre v → pre u) : ∀ {cs : List γ},
    (∀ c ∈ cs, π.Triple pre (f c) (f' c) fun a _ => Q a) →
    π.Triple pre (Action.join (cs.map f)) (Action.join (cs.map f')) fun as _ => ∀ a ∈ as, Q a
  | [], _ => pure fun _ _ a ha => by simp at ha
  | c :: cs, h => by
      have hrest := join hpre fun d hd => h d (List.mem_cons_of_mem _ hd)
      have hclimbs : ∀ x ∈ (c :: cs).map f, x.Climbs := by
        intro x hx
        obtain ⟨d, hd, rfl⟩ := List.mem_map.1 hx
        exact (h d hd).climbs
      refine ⟨Action.Climbs.join hclimbs, fun w hl hs hw => ?_⟩
      have hshared := hw.shared hpre
      have hfirst := (h c List.mem_cons_self).2 w.shared hl hs hshared
      have hothers : ∀ u', w.shared.Rely u' → π.Loaded u'.state → π.Sound u'.state →
          π.Follows (fun as _ => ∀ a ∈ as, Q a) u' (Action.join (cs.map f) u'.state)
            (Action.join (cs.map f') u'.state) :=
        fun u' hu' hl' hs' => (hrest.2 u' hl' hs' (hshared.later hu'.later)).mono
          fun _ _ _ has => has.now
      have hboth := Follows.join w.shared_split (hfirst.mono fun _ _ _ ha => ha.now)
        ((h c List.mem_cons_self).climbs _) hothers fun s' _ => hrest.climbs s'
      refine hboth.map fun ab w' hab => .of_forall fun _ a ha => ?_
      rcases List.mem_cons.1 ha with rfl | ha
      · exact hab.1
      · exact hab.2 a ha

end Policy

end Stencil
