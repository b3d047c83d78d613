/-
**Two runs that make frames in different orders.**

Iterations that run at once make frames in another order than iterations one after the other.  So frames
of two runs correspond to each other that have different numbers; all the rest of the state is the
same, but for notes.  The first run may wait, and others may run meanwhile; the second one never waits,
and what it comes to is known at once.

Main definitions:

* `Stencil.Pairing` — which frames of two runs correspond, and which of the first one are those of
  others;
* `Stencil.Pairing.Holds` — two states with such frames;
* `Stencil.Pairing.Reaches` — what the first run comes to, given what the second one does;
* `Stencil.Pairing.mirror` — the mirror that compares such runs.

Main results:

* `Stencil.Pairing.Holds.after` — others who write their frames do no harm;
* `Stencil.Pairing.store` — frames, contexts and numbers stay related;
* `Stencil.Environment.Settled.serves` — filters that wait give what filters give that do not.
-/

import Stencil.Proofs.Interleaving.Bodies
import Stencil.Proofs.Interleaving.Rounds
import Stencil.Proofs.Mirror.Runs

set_option autoImplicit false

namespace Stencil

/-- Frames of two runs that correspond to each other, and frames of the first run that others write. -/
structure Pairing where
  pairs : Set (FrameId × FrameId)
  others : Set FrameId

namespace Pairing

variable {W V : Pairing} {s s' t t' : State} {q : FrameId × FrameId}

/-- More frames correspond, and more frames are those of others. -/
structure Within (W V : Pairing) : Prop where
  pairs : W.pairs ⊆ V.pairs
  others : W.others ⊆ V.others

theorem Within.refl (W : Pairing) : W.Within W := ⟨subset_rfl, subset_rfl⟩

theorem Within.trans {U : Pairing} (h : U.Within W) (h' : W.Within V) : U.Within V :=
  ⟨h.pairs.trans h'.pairs, h.others.trans h'.others⟩

/-- Two frames that are the same, inside of frames that correspond and have smaller numbers. -/
structure Twins (W : Pairing) (q : FrameId × FrameId) (f f' : Frame) : Prop where
  bindings : f'.bindings = f.bindings
  parent : Option.Rel (fun i j => (i, j) ∈ W.pairs ∧ i < q.1 ∧ j < q.2) f.parent f'.parent
  isolated : f'.isolated = f.isolated
  topLevel : f'.topLevel = f.topLevel

theorem Twins.mono {f f' : Frame} (h : W.Twins q f f') (hW : W.pairs ⊆ V.pairs) :
    V.Twins q f f' := by
  refine { h with parent := ?_ }
  have hparent := h.parent
  generalize f.parent = p, f'.parent = p' at hparent
  cases hparent with
  | none => exact .none
  | some h => exact .some ⟨hW h.1, h.2⟩

/-- Two states in which frames correspond, and that are the same otherwise but for notes and for frames
of others. -/
structure Holds (W : Pairing) (s s' : State) : Prop where
  shared : s.SameShared s'
  frame : ∀ q ∈ W.pairs, ∃ f f', s.frames[q.1]? = some f ∧ s'.frames[q.2]? = some f' ∧ W.Twins q f f'
  fst_inj : ∀ q ∈ W.pairs, ∀ r ∈ W.pairs, q.1 = r.1 → q = r
  snd_inj : ∀ q ∈ W.pairs, ∀ r ∈ W.pairs, q.2 = r.2 → q = r
  others : ∀ i ∈ W.others, i < s.frames.size ∧ ∀ q ∈ W.pairs, q.1 ≠ i

namespace Holds

variable (h : W.Holds s s')

include h

theorem fst_lt (hq : q ∈ W.pairs) : q.1 < s.frames.size := by
  obtain ⟨f, _, hf, _⟩ := h.frame q hq
  exact (Array.getElem?_eq_some_iff.1 hf).1

theorem snd_lt (hq : q ∈ W.pairs) : q.2 < s'.frames.size := by
  obtain ⟨_, f', _, hf', _⟩ := h.frame q hq
  exact (Array.getElem?_eq_some_iff.1 hf').1

/-- Frames have no part in what was changed. -/
theorem update (ht : t.frames = s.frames) (ht' : t'.frames = s'.frames) (hshared : t.SameShared t') :
    W.Holds t t' where
  shared := hshared
  frame := by rw [ht, ht']; exact h.frame
  fst_inj := h.fst_inj
  snd_inj := h.snd_inj
  others := by rw [ht]; exact h.others

/-- The frames that others made are theirs. -/
theorem after (ht : s.ChangesOnly W.others t) :
    (⟨W.pairs, W.others ∪ s.madeFrames t⟩ : Pairing).Holds t s' where
  shared := {
    contexts := h.shared.contexts.trans ht.shared.contexts.symm
    parents := h.shared.parents.trans ht.shared.parents.symm
    depth := h.shared.depth.trans ht.shared.depth.symm
    next := h.shared.next.trans ht.shared.next.symm
    templates := h.shared.templates.trans ht.shared.templates.symm
    caches := h.shared.caches.trans ht.shared.caches.symm
    memories := h.shared.memories.trans ht.shared.memories.symm
    functions := h.shared.functions.trans ht.shared.functions.symm }
  frame q hq := by
    obtain ⟨f, f', hf, hf', htwins⟩ := h.frame q hq
    refine ⟨f, f', ?_, hf', htwins.mono subset_rfl⟩
    rw [ht.kept _ (h.fst_lt hq) fun hin => (h.others _ hin).2 q hq rfl]
    exact hf
  fst_inj := h.fst_inj
  snd_inj := h.snd_inj
  others i hi := by
    rcases hi with hi | hi
    · obtain ⟨hlt, hpairs⟩ := h.others i hi
      exact ⟨Nat.lt_of_lt_of_le hlt ht.size_le, hpairs⟩
    · refine ⟨hi.2, fun q hq heq => ?_⟩
      have hlt := h.fst_lt hq
      exact Nat.not_lt.2 hi.1 (heq ▸ hlt)

theorem lookupWithin (name : String) {fuel fuel' : Nat} (hq : q ∈ W.pairs) (hfuel : q.1 < fuel)
    (hfuel' : q.2 < fuel') :
    s'.frames.lookupWithin name fuel' q.2 = s.frames.lookupWithin name fuel q.1 := by
  induction fuel generalizing fuel' q with
  | zero => exact absurd hfuel (Nat.not_lt_zero _)
  | succ fuel ih =>
      cases fuel' with
      | zero => exact absurd hfuel' (Nat.not_lt_zero _)
      | succ fuel' =>
          obtain ⟨f, f', hf, hf', htwins⟩ := h.frame q hq
          unfold Frames.lookupWithin
          rw [hf, hf']
          dsimp only
          rw [htwins.bindings]
          have hparent := htwins.parent
          generalize f.parent = p, f'.parent = p' at hparent
          cases hparent with
          | none => rfl
          | some hin =>
              obtain ⟨hin, hlt, hlt'⟩ := hin
              have hnext := ih hin (Nat.lt_of_lt_of_le hlt (Nat.le_of_lt_succ hfuel))
                (Nat.lt_of_lt_of_le hlt' (Nat.le_of_lt_succ hfuel'))
              dsimp only at hnext ⊢
              rw [hnext]

theorem lookup (name : String) (hq : q ∈ W.pairs) :
    s'.frames.lookup q.2 name = s.frames.lookup q.1 name :=
  h.lookupWithin name hq (Nat.lt_succ_self _) (Nat.lt_succ_self _)

theorem resolveWithin (name : String) (forWrite : Bool) {fuel fuel' : Nat} (hq : q ∈ W.pairs)
    (hfuel : q.1 < fuel) (hfuel' : q.2 < fuel') :
    Option.Rel (fun i j => (i, j) ∈ W.pairs) (s.frames.resolveWithin name forWrite fuel q.1)
      (s'.frames.resolveWithin name forWrite fuel' q.2) := by
  induction fuel generalizing fuel' q with
  | zero => exact absurd hfuel (Nat.not_lt_zero _)
  | succ fuel ih =>
      cases fuel' with
      | zero => exact absurd hfuel' (Nat.not_lt_zero _)
      | succ fuel' =>
          obtain ⟨f, f', hf, hf', htwins⟩ := h.frame q hq
          unfold Frames.resolveWithin
          rw [hf, hf']
          dsimp only
          rw [htwins.bindings, htwins.isolated]
          have hparent := htwins.parent
          generalize f.parent = p, f'.parent = p' at hparent
          split
          · exact .some hq
          · split
            · exact .none
            · cases hparent with
              | none => exact .none
              | some hin =>
                  obtain ⟨hin, hlt, hlt'⟩ := hin
                  exact ih hin (Nat.lt_of_lt_of_le hlt (Nat.le_of_lt_succ hfuel))
                    (Nat.lt_of_lt_of_le hlt' (Nat.le_of_lt_succ hfuel'))

/-- What is set is set in frames that correspond. -/
theorem target (name : String) (up : Bool) (hq : q ∈ W.pairs) :
    (if up then (s.frames.resolve q.1 name true).getD q.1 else q.1,
      if up then (s'.frames.resolve q.2 name true).getD q.2 else q.2) ∈ W.pairs := by
  cases up with
  | false => exact hq
  | true =>
      have hresolve := h.resolveWithin name true hq (Nat.lt_succ_self _) (Nat.lt_succ_self _)
      simp only [if_true, Frames.resolve]
      generalize s.frames.resolveWithin name true (q.1 + 1) q.1 = o at hresolve ⊢
      generalize s'.frames.resolveWithin name true (q.2 + 1) q.2 = o' at hresolve ⊢
      cases hresolve with
      | none => exact hq
      | some hin => exact hin

theorem flattenWithin {fuel fuel' : Nat} (hq : q ∈ W.pairs) (hfuel : q.1 < fuel)
    (hfuel' : q.2 < fuel') :
    s'.frames.flattenWithin fuel' q.2 = s.frames.flattenWithin fuel q.1 := by
  induction fuel generalizing fuel' q with
  | zero => exact absurd hfuel (Nat.not_lt_zero _)
  | succ fuel ih =>
      cases fuel' with
      | zero => exact absurd hfuel' (Nat.not_lt_zero _)
      | succ fuel' =>
          obtain ⟨f, f', hf, hf', htwins⟩ := h.frame q hq
          unfold Frames.flattenWithin
          rw [hf, hf']
          dsimp only
          rw [htwins.bindings]
          have hparent := htwins.parent
          generalize f.parent = p, f'.parent = p' at hparent
          cases hparent with
          | none => rfl
          | some hin =>
              obtain ⟨hin, hlt, hlt'⟩ := hin
              have hnext := ih hin (Nat.lt_of_lt_of_le hlt (Nat.le_of_lt_succ hfuel))
                (Nat.lt_of_lt_of_le hlt' (Nat.le_of_lt_succ hfuel'))
              dsimp only at hnext ⊢
              rw [hnext]

theorem flatten (hq : q ∈ W.pairs) : s'.frames.flatten q.2 = s.frames.flatten q.1 :=
  h.flattenWithin hq (Nat.lt_succ_self _) (Nat.lt_succ_self _)

theorem isTopLevel (hq : q ∈ W.pairs) : s'.frames.isTopLevel q.2 = s.frames.isTopLevel q.1 := by
  obtain ⟨f, f', hf, hf', htwins⟩ := h.frame q hq
  unfold Frames.isTopLevel
  rw [hf, hf']
  exact htwins.topLevel

/-! ### Writing and making frames -/

/-- A name is bound in frames that correspond. -/
theorem bind (name : String) (v : Value) (hq : q ∈ W.pairs) :
    W.Holds { s with frames := s.frames.bind q.1 name v }
      { s' with frames := s'.frames.bind q.2 name v } where
  shared := ⟨h.shared.contexts, h.shared.parents, h.shared.depth, h.shared.next, h.shared.templates,
    h.shared.caches, h.shared.memories, h.shared.functions⟩
  frame r hr := by
    obtain ⟨f, f', hf, hf', htwins⟩ := h.frame r hr
    -- frames correspond one to one, so that the name is bound in both frames of a pair or in neither
    have hsame : q.1 = r.1 ↔ q.2 = r.2 :=
      ⟨fun heq => h.fst_inj q hq r hr heq ▸ rfl, fun heq => h.snd_inj q hq r hr heq ▸ rfl⟩
    have hget : (s.frames.bind q.1 name v)[r.1]? =
        if q.1 = r.1 then some { f with bindings := f.bindings.insert name v } else some f := by
      unfold Frames.bind
      rw [Array.getElem?_modify, hf]
      rfl
    have hget' : (s'.frames.bind q.2 name v)[r.2]? =
        if q.2 = r.2 then some { f' with bindings := f'.bindings.insert name v } else some f' := by
      unfold Frames.bind
      rw [Array.getElem?_modify, hf']
      rfl
    by_cases heq : q.1 = r.1
    · rw [if_pos heq] at hget
      rw [if_pos (hsame.1 heq)] at hget'
      exact ⟨_, _, hget, hget', { htwins with bindings := by rw [htwins.bindings] }⟩
    · rw [if_neg heq] at hget
      rw [if_neg fun h => heq (hsame.2 h)] at hget'
      exact ⟨f, f', hget, hget', htwins⟩
  fst_inj := h.fst_inj
  snd_inj := h.snd_inj
  others i hi := by
    obtain ⟨hlt, hpairs⟩ := h.others i hi
    exact ⟨Nat.lt_of_lt_of_eq hlt Array.size_modify.symm, hpairs⟩

end Holds

/-- The frames that two runs make next, so many of them. -/
def nextPairs (s s' : State) (count : Nat) : Set (FrameId × FrameId) :=
  {q | ∃ k < count, q = (s.frames.size + k, s'.frames.size + k)}

/-- More frames correspond. -/
def adding (W : Pairing) (more : Set (FrameId × FrameId)) : Pairing := ⟨W.pairs ∪ more, W.others⟩

/-- Frames are made by both runs, and some of them are known to correspond. -/
theorem Holds.newFrames (h : W.Holds s s') {frames frames' : List Frame}
    (hframes : List.Forall₂ (fun f f' => f'.bindings = f.bindings ∧
      Option.Rel (fun i j => (i, j) ∈ W.pairs) f.parent f'.parent ∧ f'.isolated = f.isolated ∧
        f'.topLevel = f.topLevel) frames frames')
    {more : Set (FrameId × FrameId)} (hmore : more ⊆ nextPairs s s' frames.length) :
    (W.adding more).Holds { s with frames := frames.foldl Array.push s.frames }
      { s' with frames := frames'.foldl Array.push s'.frames } := by
  rw [foldl_push_eq_append, foldl_push_eq_append]
  have hnew : ∀ q ∈ more, s.frames.size ≤ q.1 ∧ s'.frames.size ≤ q.2 := by
    rintro q hq
    obtain ⟨k, -, rfl⟩ := hmore hq
    exact ⟨Nat.le_add_right _ _, Nat.le_add_right _ _⟩
  -- in turn: what both runs share, the frames that correspond, that on neither side one corresponds to two,
  -- and the frames of others
  refine ⟨?_, ?_, ?_, ?_, ?_⟩
  · exact ⟨h.shared.contexts, h.shared.parents, h.shared.depth, h.shared.next, h.shared.templates,
      h.shared.caches, h.shared.memories, h.shared.functions⟩
  · rintro q (hq | hq)
    · obtain ⟨f, f', hf, hf', htwins⟩ := h.frame q hq
      refine ⟨f, f', ?_, ?_, htwins.mono Set.subset_union_left⟩
      · exact (Array.getElem?_append_left (h.fst_lt hq)).trans hf
      · exact (Array.getElem?_append_left (h.snd_lt hq)).trans hf'
    · obtain ⟨k, hk, rfl⟩ := hmore hq
      have hk' : k < frames'.length := hframes.length_eq ▸ hk
      obtain ⟨hbindings, hparent, hisolated, htopLevel⟩ :=
        List.forall₂_iff_get.1 hframes |>.2 k hk hk'
      refine ⟨_, _, ?_, ?_, ⟨hbindings, ?_, hisolated, htopLevel⟩⟩
      · simp [hk]
      · simp [hk']
      · generalize (frames.get ⟨k, hk⟩).parent = p, (frames'.get ⟨k, hk'⟩).parent = p' at hparent
        cases hparent with
        | none => exact .none
        | some hin =>
            have hlt := h.fst_lt hin
            have hlt' := h.snd_lt hin
            exact .some ⟨.inl hin, Nat.lt_add_right _ hlt, Nat.lt_add_right _ hlt'⟩
  · rintro q (hq | hq) r (hr | hr) heq
    · exact h.fst_inj q hq r hr heq
    · exact absurd heq (Nat.ne_of_lt (Nat.lt_of_lt_of_le (h.fst_lt hq) (hnew r hr).1))
    · exact absurd heq.symm (Nat.ne_of_lt (Nat.lt_of_lt_of_le (h.fst_lt hr) (hnew q hq).1))
    · obtain ⟨k, -, rfl⟩ := hmore hq
      obtain ⟨l, -, rfl⟩ := hmore hr
      rw [Nat.add_left_cancel heq]
  · rintro q (hq | hq) r (hr | hr) heq
    · exact h.snd_inj q hq r hr heq
    · exact absurd heq (Nat.ne_of_lt (Nat.lt_of_lt_of_le (h.snd_lt hq) (hnew r hr).2))
    · exact absurd heq.symm (Nat.ne_of_lt (Nat.lt_of_lt_of_le (h.snd_lt hr) (hnew q hq).2))
    · obtain ⟨k, -, rfl⟩ := hmore hq
      obtain ⟨l, -, rfl⟩ := hmore hr
      rw [Nat.add_left_cancel heq]
  · intro i hi
    obtain ⟨hlt, hpairs⟩ := h.others i hi
    refine ⟨?_, fun q hq => ?_⟩
    · change i < (s.frames ++ frames.toArray).size
      rw [Array.size_append]
      exact Nat.lt_add_right _ hlt
    · rcases hq with hq | hq
      · exact hpairs q hq
      · exact (Nat.ne_of_lt (Nat.lt_of_lt_of_le hlt (hnew q hq).1)).symm

/-! ### Two runs -/

/-- What the first run comes to, given the answer and the state of the second one: both fail, or the
results are related and so are the states. -/
inductive Reaches {α β : Type} (Q : Pairing → α → β → Prop) (W : Pairing) :
    Except TemplateError β → State → Ended α
  | ok {V a a' others s s'} (hV : W.Within V) (hothers : others ⊆ V.others) (hs : V.Holds s s')
    (h : Q V a a') : Reaches Q W (.ok a') s' (.ok a) others s
  | error {e e' others s s'} : Reaches Q W (.error e') s' (.error e) others s

namespace Reaches

variable {α β : Type} {Q : Pairing → α → β → Prop} {answer' : Except TemplateError β}

theorem antitone : (Reaches Q W answer' s').Antitone := by
  intro answer others others' s hsub h
  cases h with
  | ok hV hothers hs h => exact .ok hV (hsub.trans hothers) hs h
  | error => exact .error

/-- More may have been known in the beginning. -/
theorem earlier {answer : Except TemplateError α} {others : Set FrameId}
    (h : Reaches Q V answer' s' answer others s) (hW : W.Within V) :
    Reaches Q W answer' s' answer others s := by
  cases h with
  | ok hV hothers hs h => exact .ok (hW.trans hV) hothers hs h
  | error => exact .error

end Reaches

/-- What is related between two such runs. -/
def likeness : Likeness where
  World := Pairing
  le := Within
  refl := Within.refl
  trans := Within.trans
  frame W i j := (i, j) ∈ W.pairs
  frame_le hW h := hW.pairs h
  state := Holds
  node := Eq
  place _ _ := True
  faithful n n' h := by
    subst h
    exact .inl (.refl (fun _ => trivial) (fun _ => rfl) _)
  position _ := trivial
  error _ _ := True
  error_refl _ := trivial
  locate _ _ := trivial
  through _ _ := trivial

/-- What a polled action comes to, given that another one does not wait. -/
def Paired {α β : Type} (Q : Pairing → α → β → Prop) (W : Pairing) (p : Poll α) (q : Poll β) :
    Prop :=
  ∃ answer' s', q = .done answer' s' ∧ p.EndsIn (Reaches Q W answer' s') W.others

namespace Paired

variable {α β γ δ : Type} {Q : Pairing → α → β → Prop} {S : Pairing → γ → δ → Prop} {p : Poll α}
  {q : Poll β}

theorem bind {f : α → State → Poll γ} {f' : β → State → Poll δ} (h : Paired Q W p q)
    (hf : ∀ {V a a' s s'}, W.Within V → V.Holds s s' → Q V a a' → Paired S V (f a s) (f' a' s')) :
    Paired S W (p.bind f) (q.bind f') := by
  obtain ⟨answer', s', rfl, hp⟩ := h
  cases answer' with
  | error e' =>
      refine ⟨_, _, rfl, hp.bind (fun a O s h => nomatch h) fun e O s _ => .error⟩
  | ok a' =>
      -- what comes next in the second run is the same wherever the first one ends
      obtain ⟨_, _, _, -, hreached⟩ := hp.reached
      obtain ⟨hV, -, hs, ha⟩ := hreached
      obtain ⟨answer'', s'', hdone, -⟩ := hf hV hs ha
      refine ⟨answer'', s'', hdone, hp.bind (fun a O s h => ?_) fun e O s h => nomatch h⟩
      cases h with
      | ok hV hO hs ha =>
          obtain ⟨_, _, hdone', hthen⟩ := hf hV hs ha
          obtain ⟨rfl, rfl⟩ := Poll.done.inj (hdone.symm.trans hdone')
          exact (hthen.weaken Reaches.antitone hO).mono fun _ _ _ _ h => h.earlier hV

/-- The answers and the states are changed. -/
theorem mapAnswer {f : Except TemplateError α → Except TemplateError γ}
    {f' : Except TemplateError β → Except TemplateError δ} {g : State → State} (h : Paired Q W p q)
    (hf : ∀ {V a a'}, Q V a a' → ∃ c c', f (.ok a) = .ok c ∧ f' (.ok a') = .ok c' ∧ S V c c')
    (herror : ∀ e e', (∃ d, f (.error e) = .error d) ∧ ∃ d, f' (.error e') = .error d)
    (hg : ∀ {V : Pairing} {s s'}, V.Holds s s' → V.Holds (g s) (g s')) :
    Paired S W (p.mapAnswer f g) (q.mapAnswer f' g) := by
  obtain ⟨answer', s', rfl, hp⟩ := h
  refine ⟨_, _, rfl, hp.mapAnswer fun answer O s h => ?_⟩
  cases h with
  | ok hV hO hs h =>
      obtain ⟨c, c', hc, hc', hS⟩ := hf h
      rw [hc, hc']
      exact .ok hV hO (hg hs) hS
  | @error e e' =>
      obtain ⟨⟨d, hd⟩, d', hd'⟩ := herror e e'
      rw [hd, hd']
      exact .error

end Paired

/-- The mirror that compares a run that may wait with one that does not. -/
def mirror : Mirror where
  toLikeness := likeness
  poll := Paired
  ok hv hs h := ⟨_, _, rfl, .ok hv hv.others hs h⟩
  failed _ _ _ := ⟨_, _, rfl, .error⟩
  bind := Paired.bind
  located _ h := Paired.mapAnswer h (fun h => ⟨_, _, rfl, rfl, h⟩) (fun _ _ => ⟨⟨_, rfl⟩, _, rfl⟩) fun h => h
  passed _ h := Paired.mapAnswer h (fun h => ⟨_, _, rfl, rfl, h⟩) (fun _ _ => ⟨⟨_, rfl⟩, _, rfl⟩) fun h => h
  changed hg h := Paired.mapAnswer h (fun h => ⟨_, _, rfl, rfl, h⟩) (fun _ _ => ⟨⟨_, rfl⟩, _, rfl⟩) hg

/-! ### Frames, contexts and numbers -/

/-- A template is compiled alike in both runs. -/
theorem compile_acts (env : Environment) (id : TemplateId) :
    mirror.Acts W (env.compile id) (env.compile id) fun _ => Compiled.Alike Eq := by
  refine Mirror.compile_acts (F := Eq) id (.read fun _ s s' _ hs => by rw [hs.shared.templates])
    (fun {t t'} ht => ?_) (.read fun _ s s' _ hs => hs.shared.next) (fun {t t'} number ht => ?_)
    fun {c c'} number hc => ?_
  · subst ht
    cases t.compiled with
    | none => exact .none
    | some c => exact .some (.refl (fun _ => rfl) c)
  · subst ht
    exact ⟨rfl, .of_eq (fun _ => trivial) fun c => .refl (fun _ => rfl) c⟩
  · obtain rfl := hc.eq fun _ _ h => h.symm
    refine .change fun V s s' _ hs => ⟨V, .refl V, hs.update rfl rfl ?_, hc⟩
    exact { hs.shared with
      next := rfl
      templates := by dsimp only; rw [hs.shared.templates] }

/-- Templates by name are loaded alike in both runs, from memory. -/
theorem load_acts {env : Environment}
    (hloaders : ∀ loader ∈ env.loaders, ∃ number cacheable, loader = Loader.memory number cacheable)
    (name : String) (parent : Option String) (ignoreMissing : Bool) :
    mirror.Acts W (env.load name parent ignoreMissing) (env.load name parent ignoreMissing)
      fun _ => Mirror.Among fun _ => True := by
  refine Mirror.load_acts (F := Eq) (fun full => .read fun _ s s' _ hs => ?_)
    (fun loader hloader name => ?_) (fun {x x'} full hx => .change fun V s s' _ hs => ?_) name parent
    ignoreMissing
  · rw [Environment.cached?, Environment.cached?, hs.shared.caches]
  · obtain ⟨number, cacheable, rfl⟩ := hloaders loader hloader
    refine .read fun _ s s' _ hs => ?_
    rw [hs.shared.memories]
    generalize Option.map _ _ = o
    cases o with
    | none => exact .none
    | some x => exact .some rfl
  · subst hx
    refine ⟨V, .refl V, ?_, ?_⟩
    · unfold Environment.keep
      dsimp only [Environment.newTemplate]
      split
      · exact hs.update rfl rfl { hs.shared with
          templates := by dsimp only; rw [hs.shared.templates]
          caches := by dsimp only; rw [hs.shared.caches, hs.shared.templates] }
      · exact hs.update rfl rfl { hs.shared with
          templates := by dsimp only; rw [hs.shared.templates] }
    · unfold Environment.keep
      dsimp only [Environment.newTemplate]
      split <;> exact congrArg Array.size hs.shared.templates

end Pairing

end Stencil
