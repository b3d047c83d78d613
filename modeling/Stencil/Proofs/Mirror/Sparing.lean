/-
**Code that leaves a frame alone.**

A frame can be bound in from itself and from the frames that lie inside of it.  Code that runs in other
frames leaves it alone, and so does code in the frames that this code makes.  A run that does so is
compared with itself: both are in equal states, in which the frame binds what it bound.  The frames in
which the run may bind are its world: they are there, lie inside of each other, and the frame that is
left alone is none of them.

Main definitions:

* `Stencil.State.Spares` — what is known of a frame that is left alone;
* `Stencil.Likeness.sparing` — two runs in equal states of which this is known;
* `Stencil.Poll.KeepsFrames` — a polled action that changes no frame;
* `Stencil.Environment.LeavesFrames` — an environment of a host that binds in no frames.

Main results:

* `Stencil.Likeness.sparing_store` — the actions on frames and contexts leave the frame alone;
* `Stencil.Environment.LeavesFrames.tied` — **code that runs in other frames leaves a frame alone**.
-/

import Mathlib.Data.Set.Insert
import Stencil.Proofs.Mirror.Hosts
import Stencil.Proofs.Mirror.Identical

set_option autoImplicit false

namespace Stencil

variable {env : Environment} {own : FrameId} {b : Bindings} {w v : Set FrameId} {s : State}
  {α β : Type}

/-! ### A frame that is left alone -/

/-- What is known of a frame that is left alone: what it binds, and in which other frames names may be
bound. -/
structure State.Spares (own : FrameId) (b : Bindings) (w : Set FrameId) (s : State) : Prop where
  bindings : (s.frames[own]?).map Frame.bindings = some b
  notMem : own ∉ w
  closed : ∀ id ∈ w, ∃ f, s.frames[id]? = some f ∧ ∀ p, f.parent = some p → p ∈ w

namespace State.Spares

theorem of_frames {s' : State} (h : s.Spares own b w) (hframes : s'.frames = s.frames) :
    s'.Spares own b w where
  bindings := hframes ▸ h.bindings
  notMem := h.notMem
  closed := hframes ▸ h.closed

theorem lt_size (h : s.Spares own b w) : own < s.frames.size := by
  obtain ⟨f, hf, -⟩ := Option.map_eq_some_iff.1 h.bindings
  exact (Array.getElem?_eq_some_iff.1 hf).1

/-- A frame is made that lies inside of one in which names may be bound. -/
theorem push (h : s.Spares own b w) {frame : Frame} (hparent : ∀ p, frame.parent = some p → p ∈ w) :
    State.Spares own b (insert s.frames.size w) { s with frames := s.frames.push frame } where
  bindings := by
    rw [Array.getElem?_push, if_neg (Nat.ne_of_lt h.lt_size)]
    exact h.bindings
  notMem hmem := hmem.elim (Nat.ne_of_lt h.lt_size) h.notMem
  closed := by
    rintro id (rfl | hid)
    · exact ⟨frame, Array.getElem?_push_size, fun p hp => .inr (hparent p hp)⟩
    · obtain ⟨f, hf, hclosed⟩ := h.closed id hid
      have hlt := (Array.getElem?_eq_some_iff.1 hf).1
      refine ⟨f, ?_, fun p hp => .inr (hclosed p hp)⟩
      rw [Array.getElem?_push, if_neg (Nat.ne_of_lt hlt), hf]

/-- Frames are made that lie inside of such in which names may be bound. -/
theorem pushAll (h : s.Spares own b w) {frames : List Frame}
    (hparents : ∀ frame ∈ frames, ∀ p, frame.parent = some p → p ∈ w) :
    ∃ v, w ⊆ v ∧ (∀ i < frames.length, s.frames.size + i ∈ v) ∧
      State.Spares own b v { s with frames := frames.foldl Array.push s.frames } := by
  induction frames generalizing w s with
  | nil => exact ⟨w, subset_rfl, fun i hi => absurd hi (Nat.not_lt_zero i), h⟩
  | cons frame rest ih =>
      obtain ⟨v, hwv, hnew, hv⟩ := ih (h.push (hparents frame List.mem_cons_self)) fun f hf p hp =>
        .inr (hparents f (List.mem_cons_of_mem _ hf) p hp)
      refine ⟨v, (Set.subset_insert _ _).trans hwv, fun i hi => ?_, hv⟩
      cases i with
      | zero => exact hwv (Set.mem_insert _ _)
      | succ i =>
          have hi := hnew i (Nat.lt_of_succ_lt_succ hi)
          rw [Array.size_push] at hi
          rwa [Nat.add_right_comm] at hi

/-- A name that is bound from one of the frames in which names may be bound is bound in one. -/
theorem resolve_mem (h : s.Spares own b w) {id : FrameId} (hid : id ∈ w) {name : String}
    {forWrite : Bool} {target : FrameId} (ht : s.frames.resolve id name forWrite = some target) :
    target ∈ w := by
  have hwithin : ∀ fuel id, id ∈ w → s.frames.resolveWithin name forWrite fuel id = some target →
      target ∈ w := by
    intro fuel
    induction fuel with
    | zero => exact fun id _ ht => nomatch ht
    | succ fuel ih =>
        intro id hid ht
        obtain ⟨f, hf, hclosed⟩ := h.closed id hid
        rw [Frames.resolveWithin, hf] at ht
        dsimp only at ht
        split at ht
        · exact Option.some.inj ht ▸ hid
        · split at ht
          · cases ht
          · split at ht
            · rename_i p hp
              exact ih p (hclosed p hp) ht
            · cases ht
  exact hwithin _ id hid ht

/-- A name is bound from one of these frames. -/
theorem set (h : s.Spares own b w) {id : FrameId} (hid : id ∈ w) (name : String) (v : Value)
    (up : Bool) : State.Spares own b w { s with frames := s.frames.set id name v up } := by
  have htarget : (if up then (s.frames.resolve id name true).getD id else id) ∈ w := by
    split
    · cases hresolve : s.frames.resolve id name true with
      | none => exact hid
      | some target => exact h.resolve_mem hid hresolve
    · exact hid
  unfold Frames.set Frames.bind
  dsimp only
  generalize (if up then (s.frames.resolve id name true).getD id else id) = target at htarget
  refine ⟨?_, h.notMem, fun other hother => ?_⟩
  · have hne : target ≠ own := fun heq => h.notMem (heq ▸ htarget)
    rw [Array.getElem?_modify, if_neg hne]
    exact h.bindings
  · obtain ⟨f, hf, hclosed⟩ := h.closed other hother
    rw [Array.getElem?_modify, hf]
    split
    · exact ⟨_, rfl, hclosed⟩
    · exact ⟨f, rfl, hclosed⟩

end State.Spares

/-! ### Runs compared with themselves -/

/-- A polled action that changes no frame. -/
def Poll.KeepsFrames : State → Poll α → Prop
  | s, .done _ s' => s'.frames = s.frames
  | s, .wait s' rest => s'.frames = s.frames ∧ ∀ t, (rest t).KeepsFrames t

/-- An action that changes no frame. -/
def Action.KeepsFrames (x : Action α) : Prop := ∀ s, (x s).KeepsFrames s

namespace Likeness

/-- Two runs in equal states, which leave a frame alone. -/
def sparing (own : FrameId) (b : Bindings) : Likeness where
  World := Set FrameId
  le w v := w ⊆ v
  refl _ := subset_rfl
  trans h h' := h.trans h'
  frame w id id' := id' = id ∧ id ∈ w
  frame_le hv h := ⟨h.1, hv h.2⟩
  state w s s' := s' = s ∧ s.Spares own b w
  node := Eq
  place := Eq
  faithful := identical.faithful
  position := identical.position
  error := Eq
  error_refl _ := rfl
  locate := identical.locate
  through := identical.through

/-- The mirror that compares such runs. -/
abbrev spared (own : FrameId) (b : Bindings) : Mirror := (sparing own b).lockstep fun _ => False

/-- A polled action that changes no frame goes in step with itself. -/
theorem sparing_lockstep {Q : Set FrameId → α → α → Prop} {p : Poll α} (h : p.KeepsFrames s)
    (hs : s.Spares own b w) (hQ : ∀ v a, w ⊆ v → Q v a a) :
    (sparing own b).Lockstep (fun _ => False) Q w p p := by
  induction p generalizing s w with
  | done answer s' =>
      refine .inr ⟨answer, s', w, rfl, subset_rfl, ⟨rfl, hs.of_frames h⟩, ?_⟩
      cases answer with
      | ok a => exact .ok (hQ w a subset_rfl)
      | error e => exact .error rfl
  | wait s' rest ih =>
      refine .inr ⟨s', rest, w, rfl, subset_rfl, ⟨rfl, hs.of_frames h.1⟩, fun u t t' hu ht => ?_⟩
      obtain ⟨rfl, ht⟩ := ht
      exact ih t' (h.2 t') ht fun v a hv => hQ v a (hu.trans hv)

/-- So does an action. -/
theorem sparing_acts {Q : Set FrameId → α → α → Prop} {x : Action α} (h : x.KeepsFrames)
    (hQ : ∀ v a, w ⊆ v → Q v a a) : (spared own b).Acts w x x Q := by
  rintro v _ s hv ⟨rfl, hs⟩
  exact sparing_lockstep (h s) hs fun u a hu => hQ u a (hv.trans hu)

theorem sparing_change {Q : Set FrameId → α → α → Prop} {f : State → α × State}
    (hf : ∀ s : State, (f s).2.frames = s.frames) (hQ : ∀ v a, w ⊆ v → Q v a a) :
    (spared own b).Acts w (Action.change f) (Action.change f) Q :=
  sparing_acts hf hQ

theorem sparing_read {Q : Set FrameId → α → α → Prop} (f : State → α) (hQ : ∀ v a, w ⊆ v → Q v a a) :
    (spared own b).Acts w (Action.read f) (Action.read f) Q :=
  sparing_change (f := fun s => (f s, s)) (fun _ => rfl) hQ

theorem eq_of_frames {f f' : Frame} (h : (spared own b).Frames w f f') :
    f' = f ∧ ∀ p, f.parent = some p → p ∈ w := by
  obtain rfl := h.eq (fun _ _ h => h.symm) fun _ _ h => h.1
  refine ⟨rfl, fun p hp => ?_⟩
  have hparent := h.parent
  rw [hp] at hparent
  cases hparent with
  | some hp => exact hp.2

/-- The actions on frames and contexts leave the frame alone. -/
theorem sparing_store : (spared own b).Store where
  -- frames are added to those that may be written to, and their parents are among these
  newFrames := by
    intro (w : Set FrameId) frames frames' h
    have heq := eq_of_forall₂ (fun _ _ hframe => (eq_of_frames hframe).1) h
    subst heq
    have hparents : ∀ frame ∈ frames', ∀ p, frame.parent = some p → p ∈ w := fun frame hframe =>
      (eq_of_frames (List.forall₂_same.1 h frame hframe)).2
    refine .change fun v s s' hv hs => ?_
    obtain ⟨rfl, hs⟩ := hs
    obtain ⟨u, hu, hnew, hu'⟩ := hs.pushAll fun frame hframe p hp => hv (hparents frame hframe p hp)
    refine ⟨u, hu, ⟨rfl, hu'⟩, List.forall₂_same.2 fun id hid => ⟨rfl, ?_⟩⟩
    obtain ⟨i, hi, rfl⟩ := List.mem_map.1 hid
    exact hnew i (List.mem_range.1 hi)
  newFrame h := by
    obtain ⟨rfl, hparent⟩ := eq_of_frames h
    refine .change fun v s s' hv hs => ?_
    obtain ⟨rfl, hs⟩ := hs
    exact ⟨_, Set.subset_insert _ _, ⟨rfl, hs.push fun p hp => hv (hparent p hp)⟩, rfl,
      Set.mem_insert _ _⟩
  setName name up hid hv := by
    obtain ⟨rfl, hid⟩ := hid
    obtain rfl := hv.eq fun _ _ h => h.symm
    refine .modify fun u s s' hu hs => ?_
    obtain ⟨rfl, hs⟩ := hs
    exact ⟨rfl, hs.set (hu hid) name _ up⟩
  lookup name hscope hid := by
    obtain ⟨rfl, -⟩ := hid
    obtain rfl := hscope.eq fun _ _ h => h.symm
    exact sparing_read _ fun _ _ _ => .refl (fun _ => rfl) _
  isTopLevel hid := by
    obtain ⟨rfl, -⟩ := hid
    exact sparing_read _ fun _ _ _ => rfl
  flatten hid := by
    obtain ⟨rfl, -⟩ := hid
    exact sparing_read _ fun _ _ _ => .refl (fun _ => rfl) _
  context id := sparing_read _ fun _ _ _ => .refl (fun _ => rfl) _
  modifyContext id hf := by
    have heq := funext fun c => (hf (.refl (fun _ => rfl) c)).eq fun _ _ h => h.symm
    rw [heq]
    exact sparing_change (f := fun s => ((), _)) (fun _ => rfl) fun _ _ _ => trivial
  newContext h := by
    obtain rfl := h.eq fun _ _ h => h.symm
    exact sparing_change (fun _ => rfl) fun _ _ _ => rfl
  create context path hblock := by
    obtain rfl := eq_of_optionRel (fun _ _ h => h.eq fun _ _ h => h.symm) hblock
    exact sparing_change (fun _ => rfl) fun _ _ _ => .refl (fun _ => rfl) _
  extended hscope := by
    obtain rfl := hscope.eq fun _ _ h => h.symm
    exact sparing_read _ fun _ _ _ => .all rfl
  setExtended id _ hscope := by
    obtain rfl := hscope.eq fun _ _ h => h.symm
    exact sparing_change (f := fun s => ((), _)) (fun _ => rfl) fun _ _ _ => trivial
  newNumber := sparing_change (fun _ => rfl) fun _ _ _ => rfl
  name id := sparing_read _ fun _ _ _ => rfl
  depth h := congrArg State.depth h.1
  enter h := by
    obtain ⟨rfl, h⟩ := h
    exact ⟨rfl, h.of_frames rfl⟩
  leave h := by
    obtain ⟨rfl, h⟩ := h
    exact ⟨rfl, h.of_frames rfl⟩
  function number hargs := by
    obtain rfl := hargs.eq fun _ _ h => h.symm
    refine sparing_acts (fun s => ?_) fun _ _ _ => .refl (fun _ => rfl) _
    unfold Render.callFunction
    split <;> exact rfl

end Likeness

/-! ### Hosts -/

open Likeness

/-- An extension that binds in frames only by rendering the bodies of its tags: with bodies that leave
a frame alone it leaves it alone. -/
def Extension.LeavesFrames (x : Extension) : Prop :=
  ∀ own b w context method args content content', List.Forall₂ (fun body body' =>
    (spared own b).Acts w body body' fun _ text text' => text' = text) content content' →
      (spared own b).Acts w (x.run context method args content) (x.run context method args content')
        fun _ v v' => v' = v

namespace Environment

/-- An environment of a host that binds in no frames. -/
structure LeavesFrames (env : Environment) : Prop where
  source : ∀ loader ∈ env.loaders, ∀ name, (loader.source name).KeepsFrames
  filter : ∀ e ∈ env.filters, ∀ v args, (e.2.apply v args).KeepsFrames
  tag : ∀ x ∈ env.extensions, x.LeavesFrames

/-- A host that registers nothing of its own binds in no frames. -/
theorem Bare.leavesFrames (h : env.Bare s) : env.LeavesFrames where
  source loader hloader name t := by
    obtain ⟨number, cacheable, rfl⟩ := h.loaders loader hloader
    exact rfl
  filter e he v args t := by
    rw [h.filters] at he
    obtain ⟨f, -, rfl⟩ := List.mem_map.1 he
    exact rfl
  tag x hx := by
    rw [h.extensions] at hx
    cases hx

/-- Compiling a template changes no frame. -/
theorem compile_keepsFrames (env : Environment) (id : TemplateId) : (env.compile id).KeepsFrames := by
  intro s
  rw [Policy.Basic.compile_eq]
  split
  · exact rfl
  · split <;> exact rfl

/-- Loading a template changes no frame, if the loaders do not. -/
theorem LeavesFrames.load (henv : env.LeavesFrames) (own : FrameId) (b : Bindings) (name : String)
    (parent : Option String) (ignoreMissing : Bool) : (spared own b).Acts w
      (env.load name parent ignoreMissing) (env.load name parent ignoreMissing)
        fun _ => Mirror.Among fun _ => True := by
  refine Mirror.load_acts (F := fun x x' => x' = x) (fun _ => sparing_read _ fun _ _ _ => rfl)
    (fun loader hloader name => sparing_acts (henv.source loader hloader name) fun _ found _ => ?_)
    (fun {x x'} full hx => ?_) name parent ignoreMissing
  · cases found with
    | none => exact .none
    | some source => exact .some rfl
  · obtain rfl : x' = x := hx
    refine sparing_change (fun s => ?_) fun _ _ _ => rfl
    unfold keep
    dsimp only
    split <;> rfl

/-- What is rendered leaves a frame alone, if the host does. -/
theorem LeavesFrames.keeps (henv : env.LeavesFrames) (own : FrameId) (b : Bindings) :
    (spared own b).Keeps env env :=
  keeps_of_node_eq rfl sparing_store
    (fun id _ => sparing_acts (env.compile_keepsFrames id) fun _ c _ => .refl (fun _ => rfl) c)
    (henv.load own b)
    (fun e he _ v args => sparing_acts (henv.filter e he v args) fun _ v _ => .refl (fun _ => rfl) v)
    fun x hx => henv.tag x hx own b _

/-- Code that runs in other frames leaves a frame alone, and so does what it calls. -/
theorem LeavesFrames.tied (henv : env.LeavesFrames) (own : FrameId) (b : Bindings) (depth : Nat) :
    Evaluator.Mirrored (spared own b) (.tied env depth) (.tied env depth) := by
  refine .tied (henv.keeps own b) (fun _ _ n n' hnode => ?_) depth
  obtain rfl := hnode
  exact .inl (.refl (fun _ => rfl) (fun _ => rfl) n)

end Environment

end Stencil
