/-
**Actions that write no frames but their own.**

Actions that run at once get into each other's way only where one writes what another one reads.  An
action is confined to some frames if it writes no others, but for those that it makes itself, and
nothing else in the state but notes.  What others do while it waits is not asked about.

Main definitions:

* `Stencil.State.ChangesOnly` — a change of a state that writes some frames, new ones and notes;
* `Stencil.Poll.Confined`, `Stencil.Action.Confined` — an action whose changes are of this kind.

Main results:

* `Stencil.Action.Confined.bind`, `Stencil.Action.Confined.appendAll` — confined actions one after the
  other;
* `Stencil.Poll.Confined.join`, `Stencil.Action.Confined.join` — confined actions at once.
-/

import Mathlib.Data.Set.Basic
import Stencil.Proofs.Evaluation.Store

set_option autoImplicit false

namespace Stencil

/-! ### Changes of a state -/

namespace State

/-- What frames and notes have no part in is the same in two states. -/
structure SameShared (s s' : State) : Prop where
  contexts : s'.contexts = s.contexts
  parents : s'.parents = s.parents
  depth : s'.depth = s.depth
  next : s'.next = s.next
  templates : s'.templates = s.templates
  caches : s'.caches = s.caches
  memories : s'.memories = s.memories
  functions : s'.functions = s.functions

theorem SameShared.refl (s : State) : s.SameShared s := ⟨rfl, rfl, rfl, rfl, rfl, rfl, rfl, rfl⟩

theorem SameShared.trans {s s' s'' : State} (h : s.SameShared s') (h' : s'.SameShared s'') :
    s.SameShared s'' where
  contexts := h'.contexts.trans h.contexts
  parents := h'.parents.trans h.parents
  depth := h'.depth.trans h.depth
  next := h'.next.trans h.next
  templates := h'.templates.trans h.templates
  caches := h'.caches.trans h.caches
  memories := h'.memories.trans h.memories
  functions := h'.functions.trans h.functions

/-- The frames that a later state has and an earlier one had not. -/
def madeFrames (s s' : State) : Set FrameId := {i | s.frames.size ≤ i ∧ i < s'.frames.size}

/-- A change of a state that writes some frames, new ones and notes. -/
structure ChangesOnly (own : Set FrameId) (s s' : State) : Prop where
  shared : s.SameShared s'
  size_le : s.frames.size ≤ s'.frames.size
  kept : ∀ i, i < s.frames.size → i ∉ own → s'.frames[i]? = s.frames[i]?

namespace ChangesOnly

variable {own own' : Set FrameId} {s s' s'' : State}

theorem refl (own : Set FrameId) (s : State) : s.ChangesOnly own s :=
  ⟨.refl s, Nat.le_refl _, fun _ _ _ => rfl⟩

theorem mono (h : s.ChangesOnly own s') (hown : own ⊆ own') : s.ChangesOnly own' s' :=
  { h with kept := fun i hi hnot => h.kept i hi fun hin => hnot (hown hin) }

/-- What was made on the way may be written as well. -/
theorem trans (h : s.ChangesOnly own s') (h' : s'.ChangesOnly (own ∪ s.madeFrames s') s'') :
    s.ChangesOnly own s'' where
  shared := h.shared.trans h'.shared
  size_le := Nat.le_trans h.size_le h'.size_le
  kept i hi hnot := by
    have hmade : i ∉ own ∪ s.madeFrames s' := by
      rintro (hin | hin)
      · exact hnot hin
      · exact absurd hin.1 (by omega)
    exact (h'.kept i (Nat.lt_of_lt_of_le hi h.size_le) hmade).trans (h.kept i hi hnot)

end ChangesOnly

/-- A change of the notes alone. -/
theorem ChangesOnly.notes (own : Set FrameId) (s : State) (notes : Array String) :
    s.ChangesOnly own { s with notes := notes } :=
  ⟨⟨rfl, rfl, rfl, rfl, rfl, rfl, rfl, rfl⟩, Nat.le_refl _, fun _ _ _ => rfl⟩

/-- What was made on the way and after that. -/
theorem madeFrames_union {own : Set FrameId} {s s' s'' : State}
    (h : s.frames.size ≤ s'.frames.size) (h' : s'.frames.size ≤ s''.frames.size) :
    own ∪ s.madeFrames s' ∪ s'.madeFrames s'' = own ∪ s.madeFrames s'' := by
  ext i
  constructor
  · rintro ((hi | ⟨hlow, hup⟩) | ⟨hlow, hup⟩)
    · exact .inl hi
    · exact .inr ⟨hlow, Nat.lt_of_lt_of_le hup h'⟩
    · exact .inr ⟨Nat.le_trans h hlow, hup⟩
  · rintro (hi | ⟨hlow, hup⟩)
    · exact .inl (.inl hi)
    · rcases Nat.lt_or_ge i s'.frames.size with hlt | hge
      · exact .inl (.inr ⟨hlow, hlt⟩)
      · exact .inr ⟨hge, hup⟩

end State

/-! ### Polled actions -/

/-- A polled action that writes no frames but some and those that it makes, with what is known of its
result and of the frames that are its own in the end. -/
def Poll.Confined {α : Type} (Q : α → Set FrameId → Prop) : Set FrameId → State → Poll α → Prop
  | own, s, .done answer s' => s.ChangesOnly own s' ∧
      ∀ a, answer = .ok a → Q a (own ∪ s.madeFrames s')
  | own, s, .wait s' rest => s.ChangesOnly own s' ∧ ∀ t, s'.frames.size ≤ t.frames.size →
      (rest t).Confined Q (own ∪ s.madeFrames s') t

/-- Nothing is known of the result. -/
abbrev Poll.Anything {α : Type} (_ : α) (_ : Set FrameId) : Prop := True

namespace Poll.Confined

variable {α β : Type} {Q : α → Set FrameId → Prop} {S : β → Set FrameId → Prop}
  {own own' : Set FrameId} {s s' : State} {p : Poll α}

/-- What the action did before may be counted in. -/
theorem earlier (hs : s.ChangesOnly own s') (h : p.Confined Q (own ∪ s.madeFrames s') s') :
    p.Confined Q own s := by
  cases p with
  | done answer t =>
      obtain ⟨ht, hanswer⟩ := h
      rw [State.madeFrames_union hs.size_le ht.size_le] at hanswer
      exact ⟨hs.trans ht, hanswer⟩
  | wait t rest =>
      obtain ⟨ht, hrest⟩ := h
      rw [State.madeFrames_union hs.size_le ht.size_le] at hrest
      exact ⟨hs.trans ht, hrest⟩

/-- More may be written than is. -/
theorem widen (h : p.Confined Q own s) (hown : own ⊆ own') : p.Confined Anything own' s := by
  induction p generalizing own own' s with
  | done answer t => exact ⟨h.1.mono hown, fun _ _ => trivial⟩
  | wait t rest ih =>
      exact ⟨h.1.mono hown, fun u hu => ih u (h.2 u hu) (Set.union_subset_union_left _ hown)⟩

/-- One action after another. -/
theorem bind {f : α → State → Poll β} (h : p.Confined Q own s)
    (hf : ∀ a o t, own ⊆ o → Q a o → (f a t).Confined S o t) : (p.bind f).Confined S own s := by
  induction p generalizing own s with
  | done answer t =>
      cases answer with
      | ok a => exact earlier h.1 (hf a _ t Set.subset_union_left (h.2 a rfl))
      | error e => exact ⟨h.1, fun _ hok => by cases hok⟩
  | wait t rest ih =>
      refine ⟨h.1, fun u hu => ih u (h.2 u hu) fun a o t ho => ?_⟩
      exact hf a o t (Set.subset_union_left.trans ho)

/-- The answer is changed. -/
theorem mapAnswer {f : Except TemplateError α → Except TemplateError β} (h : p.Confined Q own s)
    (hf : ∀ answer b, f answer = .ok b → ∃ a, answer = .ok a ∧ ∀ o, Q a o → S b o) :
    (p.mapAnswer f id).Confined S own s := by
  induction p generalizing own s with
  | done answer t =>
      refine ⟨h.1, fun b hb => ?_⟩
      obtain ⟨a, rfl, hab⟩ := hf answer b hb
      exact hab _ (h.2 a rfl)
  | wait t rest ih => exact ⟨h.1, fun u hu => ih u (h.2 u hu)⟩

theorem map {f : α → β} (h : p.Confined Q own s) : (p.map f).Confined Anything own s :=
  h.mapAnswer fun answer b hb => by
    cases answer with
    | ok a => exact ⟨a, rfl, fun _ _ => trivial⟩
    | error e => cases hb

/-- Two actions at once, of which the first was polled already: each writes its own frames. -/
theorem join {own₁ own₂ : Set FrameId} {q : State → Poll β} (hp : p.Confined Q own₁ s)
    (hq : ∀ t, s.frames.size ≤ t.frames.size → (q t).Confined S own₂ t) :
    (p.join q).Confined Anything (own₁ ∪ own₂) s := by
  induction p generalizing own₁ own₂ s q with
  | done answer t =>
      obtain ⟨ht, _⟩ := hp
      have ht := ht.mono (Set.subset_union_left (t := own₂))
      cases answer with
      | error e => exact ⟨ht, fun _ hok => by cases hok⟩
      | ok a =>
          refine earlier ht (map (widen (hq t ht.size_le) ?_))
          exact Set.subset_union_right.trans Set.subset_union_left
  | wait t rest ih =>
      obtain ⟨ht, hrest⟩ := hp
      have hnow := hq t ht.size_le
      have hboth := ht.mono (Set.subset_union_left (t := own₂))
      simp only [Poll.join]
      -- the second action goes on from where the first one stopped in this round
      have hcount : ∀ {u : State}, t.ChangesOnly own₂ u → s.ChangesOnly (own₁ ∪ own₂) u ∧
          own₁ ∪ s.madeFrames t ∪ (own₂ ∪ t.madeFrames u) ⊆ own₁ ∪ own₂ ∪ s.madeFrames u := by
        intro u hu
        refine ⟨hboth.trans (hu.mono (Set.subset_union_right.trans Set.subset_union_left)), ?_⟩
        rw [← State.madeFrames_union hboth.size_le hu.size_le]
        rintro i ((hi | hi) | (hi | hi))
        · exact .inl (.inl (.inl hi))
        · exact .inl (.inr hi)
        · exact .inl (.inl (.inr hi))
        · exact .inr hi
      cases hcase : q t with
      | done answer u =>
          rw [hcase] at hnow
          obtain ⟨hall, hsub⟩ := hcount hnow.1
          cases answer with
          | error e => exact ⟨hall, fun _ hok => by cases hok⟩
          | ok b =>
              refine ⟨hall, fun v hv => map (widen (hrest v ?_) ?_)⟩
              · exact Nat.le_trans hnow.1.size_le hv
              · exact Set.subset_union_left.trans hsub
      | wait u restq =>
          rw [hcase] at hnow
          obtain ⟨hall, hsub⟩ := hcount hnow.1
          refine ⟨hall, fun v hv => widen (ih v (hrest v ?_) fun x hx => ?_) hsub⟩
          · exact Nat.le_trans hnow.1.size_le hv
          · exact hnow.2 x (Nat.le_trans hv hx)

end Poll.Confined

/-! ### Actions -/

/-- An action that writes no frames but some and those that it makes, from whatever state it starts. -/
def Action.Confined {α : Type} (own : Set FrameId) (x : Action α) (Q : α → Set FrameId → Prop) :
    Prop :=
  ∀ o s, own ⊆ o → (x s).Confined Q o s

namespace Action.Confined

open Poll (Anything)

variable {α β : Type} {Q : α → Set FrameId → Prop} {S : β → Set FrameId → Prop}
  {own own' : Set FrameId} {x : Action α}

theorem widen (h : x.Confined own Q) (hown : own ⊆ own') : x.Confined own' Q :=
  fun o s ho => h o s (hown.trans ho)

theorem bind (h : x.Confined own Q) {f : α → Action β}
    (hf : ∀ a o, own ⊆ o → Q a o → (f a).Confined o S) : (x >>= f).Confined own S :=
  fun o s ho => (h o s ho).bind fun a o' t ho' ha => hf a o' (ho.trans ho') ha o' t subset_rfl

theorem ofExcept {answer : Except TemplateError α} (h : ∀ a, answer = .ok a → ∀ o, Q a o) :
    (Action.ofExcept answer).Confined own Q :=
  fun o s _ => ⟨.refl o s, fun a ha => h a ha _⟩

theorem pure {a : α} (h : ∀ o, own ⊆ o → Q a o) : (Pure.pure a : Action α).Confined own Q :=
  fun o s ho => ⟨.refl o s, fun b hb => by
    obtain rfl : a = b := Except.ok.inj hb
    exact h _ (ho.trans Set.subset_union_left)⟩

theorem fail (c : Cause) : (Action.fail c : Action α).Confined own Q :=
  fun o s _ => ⟨.refl o s, fun _ hok => by cases hok⟩

theorem read {f : State → α} (h : ∀ a o, Q a o) : (Action.read f).Confined own Q :=
  fun o s _ => ⟨.refl o s, fun _ _ => h _ _⟩

theorem map {f : α → β} (h : x.Confined own Q) : (f <$> x).Confined own Anything :=
  h.bind fun _ _ _ _ => pure fun _ _ => trivial

theorem located (h : x.Confined own Q) (p : Position) : (Action.located p x).Confined own Q :=
  fun o s ho => (h o s ho).mapAnswer fun answer b hb => by
    cases answer with
    | ok a => exact ⟨b, hb, fun _ h => h⟩
    | error e => cases hb

/-- Actions one after the other. -/
theorem sequence {ι : Type} {f : ι → Action α} {cs : List ι}
    (h : ∀ c ∈ cs, (f c).Confined own Q) :
    (Action.sequence (cs.map f)).Confined own Anything := by
  induction cs generalizing own with
  | nil => exact pure fun _ _ => trivial
  | cons c rest ih =>
      refine (h c List.mem_cons_self).bind fun a o ho _ => ?_
      refine (ih fun d hd => (h d (List.mem_cons_of_mem _ hd)).widen ho).bind fun _ _ _ _ => ?_
      exact pure fun _ _ => trivial

/-- Outputs one after the other. -/
theorem appendAll {ι : Type} {f : ι → Action String} {cs : List ι}
    {Q : String → Set FrameId → Prop} (h : ∀ c ∈ cs, (f c).Confined own Q) (out : String) :
    (Action.appendAll f out cs).Confined own Anything := by
  induction cs generalizing own out with
  | nil => exact pure (a := out) fun _ _ => trivial
  | cons c rest ih =>
      rw [Action.appendAll_cons]
      refine (h c List.mem_cons_self).bind fun text o ho _ => ?_
      exact ih (fun d hd => (h d (List.mem_cons_of_mem _ hd)).widen ho) _

/-- Actions at once. -/
theorem join {ι : Type} {f : ι → Action α} {cs : List ι} (h : ∀ c ∈ cs, (f c).Confined own Q) :
    (Action.join (cs.map f)).Confined own Anything := by
  induction cs with
  | nil => exact pure fun _ _ => trivial
  | cons c rest ih =>
      intro o s ho
      have hrest := ih fun d hd => h d (List.mem_cons_of_mem _ hd)
      have hboth := Poll.Confined.join (h c List.mem_cons_self o s ho) fun t _ => hrest o t ho
      rw [Set.union_self] at hboth
      exact hboth.map

/-- A frame is written that is the action's own. -/
theorem setName {id : FrameId} (hid : id ∈ own) (name : String) (v : Value) :
    (Action.setName id name v false).Confined own Anything := by
  intro o s ho
  refine ⟨⟨⟨rfl, rfl, rfl, rfl, rfl, rfl, rfl, rfl⟩, ?_, fun i _ hi => ?_⟩, fun _ _ => trivial⟩
  · exact Nat.le_of_eq (Array.size_modify).symm
  · have hne : id ≠ i := fun h => hi (ho (h ▸ hid))
    exact (Array.getElem?_modify ..).trans (if_neg hne)

/-- The frames that are made are the action's own. -/
theorem newFrames (frames : List Frame) :
    (Action.newFrames frames).Confined own fun ids o => ∀ id ∈ ids, id ∈ o := by
  intro o s _
  have hall : frames.foldl Array.push s.frames = s.frames ++ frames.toArray :=
    foldl_push_eq_append _ _
  have hsize : (s.frames ++ frames.toArray).size = s.frames.size + frames.length := by simp
  refine ⟨⟨⟨rfl, rfl, rfl, rfl, rfl, rfl, rfl, rfl⟩, ?_, fun i hi _ => ?_⟩, fun ids hids id hid => ?_⟩
  · change s.frames.size ≤ (frames.foldl Array.push s.frames).size
    rw [hall]
    omega
  · change (frames.foldl Array.push s.frames)[i]? = _
    rw [hall, Array.getElem?_append_left hi]
  · obtain rfl := Except.ok.inj hids
    obtain ⟨k, hk, rfl⟩ := List.mem_map.1 hid
    have hk := List.mem_range.1 hk
    refine .inr ⟨Nat.le_add_right _ _, ?_⟩
    change _ < (frames.foldl Array.push s.frames).size
    rw [hall]
    omega

end Action.Confined

end Stencil
