/-
**Frames, contexts and templates while a run goes on.**

The actions that make frames and contexts, and those that bind names in them, with what is known
after each of them.  What an action makes is its own: it may be written, and nobody else writes it.
A frame may be made with some of its names held: these are frozen from the start.

Main definitions:

* `Stencil.World.Made`, `Stencil.World.MadeContext` — a frame and a context that the action made;
* `Stencil.World.MayBind`, `Stencil.World.MayPublish` — a name that may be bound from a frame, and
  one that may be bound in a context;
* `Stencil.World.Open` — a frame from which names may be bound.

Main results:

* `Stencil.Policy.Triple.newFrames`, `Stencil.Policy.Triple.newContext`,
  `Stencil.Policy.Triple.create` — making frames, contexts and scopes;
* `Stencil.Policy.Triple.setName`, `Stencil.Policy.Triple.scopeBind` — binding names.
-/

import Stencil.Proofs.Logic.Concurrent

set_option autoImplicit false

namespace Stencil

namespace World

/-- A frame that the action made, in which the names of `held` are frozen. -/
structure Made (w : World) (held : String → Prop) (id : FrameId) (frame : Frame) : Prop where
  place : ∃ f, w.state.frames[id]? = some f ∧ frame.SamePlace f
  may : .frame id ∈ w.may
  mine : .frame id ∈ w.mine
  names : ∀ name, ¬held name → .binding id name ∈ w.may
  own : ∀ name, .binding id name ∈ w.mine
  closed : ∀ name, held name → .binding id name ∉ w.may
  bound : ∀ name, held name →
    ((w.state.frames[id]?).bind fun f => f.bindings.get? name) = frame.bindings.get? name

/-- A context that the action made. -/
structure MadeContext (w : World) (id : ContextId) : Prop where
  may : .context id ∈ w.may
  members : ∀ name, .member id name ∈ w.may
  exported : .exported id ∈ w.may
  blocks : .blocks id ∈ w.may

/-- A name may be bound from a frame: in the frame itself, and with `up` where it is bound
already. -/
def MayBind (w : World) (up : Bool) (id : FrameId) (name : String) : Prop :=
  ∀ target, target = id ∨ (up = true ∧ w.state.frames.resolve id name true = some target) →
    target < w.state.frames.size → .frame target ∈ w.may ∧ .binding target name ∈ w.may

/-- A name may be bound in a context, and be offered for import if so told. -/
structure MayPublish (w : World) (offered : Bool) (id : ContextId) (name : String) : Prop where
  context : .context id ∈ w.may
  member : .member id name ∈ w.may
  exported : offered = true → .exported id ∈ w.may

/-- A made frame stays what it is. -/
theorem Made.later {w w' : World} {held : String → Prop} {id : FrameId} {frame : Frame}
    (h : w.Made held id frame) (hw : w.Later w') : w'.Made held id frame where
  place := by
    obtain ⟨f, hf, hsame⟩ := h.place
    obtain ⟨f', hf', hsame'⟩ := hw.grows.frames id f hf
    exact ⟨f', hf', hsame.trans hsame'⟩
  may := hw.may_le h.may
  mine := hw.mine_le h.mine
  names name hname := hw.may_le (h.names name hname)
  own name := hw.mine_le (h.own name)
  closed name hname :=
    notMem_of_made hw.may_made (w.mine_exists _ (h.own name)) (h.closed name hname)
  bound name hname :=
    Eq.trans (hw.kept _ ⟨h.own name, h.closed name hname⟩) (h.bound name hname)

theorem MadeContext.later {w w' : World} {id : ContextId} (h : w.MadeContext id)
    (hw : w.Later w') : w'.MadeContext id :=
  ⟨hw.may_le h.may, fun name => hw.may_le (h.members name), hw.may_le h.exported,
    hw.may_le h.blocks⟩

/-! ### Frames from which names may be bound -/

/-- A frame may be written, but for the names of `held`. -/
def MayWrite (w : World) (held : String → Prop) (id : FrameId) : Prop :=
  .frame id ∈ w.may ∧ ∀ name, ¬held name → .binding id name ∈ w.may

/-- All frames that a write from a frame can get to may be written, but for the names of `held`. -/
inductive Open (w : World) (held : String → Prop) : FrameId → Prop
  | border {id : FrameId} {f : Frame} (hf : w.state.frames[id]? = some f)
    (hborder : f.parent = none ∨ f.isolated = true) (hmay : w.MayWrite held id) : Open w held id
  | inside {id p : FrameId} {f : Frame} (hf : w.state.frames[id]? = some f)
    (hparent : f.parent = some p) (hmay : w.MayWrite held id) (hp : Open w held p) :
    Open w held id

theorem Open.mayWrite {w : World} {held : String → Prop} {id : FrameId} (h : w.Open held id) :
    w.MayWrite held id := by
  cases h with
  | border _ _ hmay => exact hmay
  | inside _ _ hmay _ => exact hmay

theorem Open.of_eq {w w' : World} {held : String → Prop} {id : FrameId} (h : w.Open held id)
    (hstate : w'.state = w.state) (hmay : w'.may = w.may) : w'.Open held id := by
  have hwrite : ∀ id, w.MayWrite held id → w'.MayWrite held id := by
    intro id hid
    unfold MayWrite
    rwa [hmay]
  induction h with
  | border hf hborder hmay => exact .border (hstate ▸ hf) hborder (hwrite _ hmay)
  | inside hf hparent hmay hp ih => exact .inside (hstate ▸ hf) hparent (hwrite _ hmay) ih

/-- Names that are not held may be bound from an open frame. -/
theorem Open.mayBind {w : World} {held : String → Prop} {id : FrameId} {name : String}
    {up : Bool} (h : w.Open held id) (hname : ¬held name) : w.MayBind up id name := by
  -- The induction is on the way up to the border of the open frames.  At the border no name is looked for any
  -- further.
  have main : ∀ fuel target, w.state.frames.resolveWithin name true fuel id = some target →
      w.MayWrite held target := by
    induction h with
    | @border id f hf hborder hmay =>
        intro fuel target htarget
        cases fuel with
        | zero => cases htarget
        | succ fuel =>
            rw [Frames.resolveWithin, hf] at htarget
            rcases hborder with hparent | hisolated
            · simp only [hparent] at htarget
              split at htarget
              · obtain rfl : id = target := by simpa using htarget
                exact hmay
              · simp at htarget
            · simp only [hisolated] at htarget
              split at htarget
              · obtain rfl : id = target := by simpa using htarget
                exact hmay
              · simp at htarget
    | @inside id p f hf hparent hmay hp ih =>
        intro fuel target htarget
        cases fuel with
        | zero => cases htarget
        | succ fuel =>
            rw [Frames.resolveWithin, hf] at htarget
            simp only [hparent] at htarget
            split at htarget
            · obtain rfl : id = target := by simpa using htarget
              exact hmay
            · split at htarget
              · cases htarget
              · exact ih fuel target htarget
  intro target htarget _
  have hmay : w.MayWrite held target := by
    rcases htarget with rfl | ⟨_, htarget⟩
    · exact h.mayWrite
    · exact main _ target htarget
  exact ⟨hmay.1, hmay.2 name hname⟩

theorem Made.mayWrite {w : World} {held : String → Prop} {id : FrameId} {frame : Frame}
    (h : w.Made held id frame) : w.MayWrite held id :=
  ⟨h.may, h.names⟩

/-- A made frame at a border is open. -/
theorem Made.open_border {w : World} {held : String → Prop} {id : FrameId} {frame : Frame}
    (h : w.Made held id frame) (hborder : frame.parent = none ∨ frame.isolated = true) :
    w.Open held id := by
  obtain ⟨f, hf, hsame⟩ := h.place
  refine .border hf ?_ h.mayWrite
  rw [hsame.1, hsame.2.1]
  exact hborder

/-- A frame made inside of an open frame is open. -/
theorem Made.open_inside {w : World} {held : String → Prop} {id p : FrameId} {frame : Frame}
    (h : w.Made held id frame) (hparent : frame.parent = some p) (hp : w.Open held p) :
    w.Open held id := by
  obtain ⟨f, hf, hsame⟩ := h.place
  exact .inside hf (hsame.1.trans hparent) h.mayWrite hp

/-- A made frame holds the names of a template only if it was made to. -/
theorem Made.isTopLevel {w : World} {held : String → Prop} {id : FrameId} {frame : Frame}
    (h : w.Made held id frame) : w.state.frames.isTopLevel id = frame.topLevel := by
  obtain ⟨f, hf, hsame⟩ := h.place
  rw [Frames.isTopLevel, hf, Option.any_some]
  exact hsame.2.2

/-! ### Steps -/

/-- A step that makes nothing. -/
theorem step_move {w : World} {s : State} (h : w.state.Grows s)
    (hkept : ∀ p : Place, p.Exists w.state → p ∉ w.may → p.Kept w.state s) :
    w.Step (w.move s h) where
  grows := h
  kept := hkept
  may_le := subset_rfl
  may_made := Set.subset_union_left
  mine_le := subset_rfl
  mine_made := Set.subset_union_left

/-- The world in which everything new in a state belongs to the action, and all of it but some
places may be written. -/
def extend (w : World) (s : State) (h : w.state.Grows s) (closed : Set Place) : World where
  state := s
  may := w.may ∪ {p | p ∈ Place.made w.state s ∧ p ∉ closed}
  mine := w.mine ∪ Place.made w.state s
  may_exists := by
    rintro p (hp | hp)
    · exact (w.may_exists p hp).mono h
    · exact hp.1.1
  mine_exists := by
    rintro p (hp | hp)
    · exact (w.mine_exists p hp).mono h
    · exact hp.1

theorem step_extend {w : World} {s : State} (h : w.state.Grows s) (closed : Set Place)
    (hkept : ∀ p : Place, p.Exists w.state → p.Kept w.state s) :
    w.Step (w.extend s h closed) where
  grows := h
  kept p hs _ := hkept p hs
  may_le := Set.subset_union_left
  may_made := Set.union_subset_union_right _ fun _ hp => hp.1
  mine_le := Set.subset_union_left
  mine_made := subset_rfl

end World

namespace Place

/-- Frames are added at the end. -/
theorem kept_of_frames {s : State} {frames : Frames}
    (h : ∀ id, id < s.frames.size → frames[id]? = s.frames[id]?) (p : Place) (hp : p.Exists s) :
    p.Kept s { s with frames := frames } := by
  cases p with
  | frame id => simp only [Kept, h id hp]
  | binding id name => simp only [Kept, h id hp]
  | context _ | member _ _ | exported _ | blocks _ | parent _ => rfl

/-- Contexts are added at the end. -/
theorem kept_of_contexts {s : State} {contexts : Array Context}
    (h : ∀ id, id < s.contexts.size → contexts[id]? = s.contexts[id]?) (p : Place)
    (hp : p.Exists s) : p.Kept s { s with contexts := contexts } := by
  cases p with
  | context id => simp only [Kept, h id hp]
  | member id name => simp only [Kept, h id hp]
  | exported id => simp only [Kept, h id hp]
  | blocks id => simp only [Kept, h id hp]
  | frame _ | binding _ _ | parent _ => rfl

/-- Places for extended templates are added at the end. -/
theorem kept_of_parents {s : State} {parents : Array (Option TemplateId)}
    (h : ∀ n, n < s.parents.size → parents[n]? = s.parents[n]?) (p : Place) (hp : p.Exists s) :
    p.Kept s { s with parents := parents } := by
  cases p with
  | parent n => exact h n hp
  | frame _ | binding _ _ | context _ | member _ _ | exported _ | blocks _ => rfl

end Place

/-! ### Making frames -/

/-- One entry of an array is changed. -/
theorem mem_modify {α : Type} {xs : Array α} {i : Nat} {f : α → α} {y : α}
    (h : y ∈ xs.modify i f) : y ∈ xs ∨ ∃ x, xs[i]? = some x ∧ y = f x := by
  obtain ⟨j, hj, rfl⟩ := Array.getElem_of_mem h
  have hget : (xs.modify i f)[j]? = some ((xs.modify i f)[j]) := Array.getElem?_eq_getElem hj
  rw [Array.getElem?_modify] at hget
  have hj' : j < xs.size := by simpa using hj
  rw [Array.getElem?_eq_getElem hj'] at hget
  by_cases hij : i = j
  · right
    subst hij
    exact ⟨xs[i], Array.getElem?_eq_getElem hj', by simpa using hget.symm⟩
  · left
    have heq : xs[j] = (xs.modify i f)[j] := by simpa [hij] using hget
    exact heq ▸ Array.getElem_mem hj'

theorem foldl_push_eq_append {α : Type} (xs : Array α) (more : List α) :
    more.foldl Array.push xs = xs ++ more.toArray := by
  induction more generalizing xs with
  | nil => simp
  | cons a rest ih => rw [List.foldl_cons, ih]; simp

namespace Policy

variable {π : Policy} {pre : World → Prop}

/-- A context is changed in a way that keeps what it holds admitted. -/
theorem Sound.modifyContext {s : State} (hs : π.Sound s) (id : ContextId) {f : Context → Context}
    (hglobals : ∀ c, Bindings.Admitted π c.globals → Bindings.Admitted π (f c).globals)
    (hbindings : ∀ c, Bindings.Admitted π c.bindings → Bindings.Admitted π (f c).bindings)
    (hblocks : ∀ c : Context, (∀ entry ∈ c.blocks, ∀ b ∈ entry.2, π.block b) →
      ∀ entry ∈ (f c).blocks, ∀ b ∈ entry.2, π.block b) :
    π.Sound { s with contexts := s.contexts.modify id f } := by
  have hall : ∀ {P : Context → Prop}, (∀ c ∈ s.contexts, P c) → (∀ c, P c → P (f c)) →
      ∀ c ∈ s.contexts.modify id f, P c := by
    intro P hold hf c hc
    rcases mem_modify hc with hc | ⟨d, hd, rfl⟩
    · exact hold c hc
    · exact hf d (hold d (Array.mem_of_getElem? hd))
  exact { hs with
    globals := hall hs.globals hglobals
    bindings := hall hs.bindings hbindings
    blocks := hall hs.blocks hblocks }

namespace Triple

/-- The frames of a list are made; in all of them the names of `held` are frozen. -/
theorem newFrames (held : String → Prop) {frames : List Frame}
    (h : ∀ w, pre w → ∀ frame ∈ frames, Bindings.Admitted π frame.bindings) :
    π.Triple pre (Action.newFrames frames) (Action.newFrames frames)
      fun ids w => ∀ id ∈ ids, ∃ frame ∈ frames, w.Made held id frame := by
  have hgrows : ∀ s : State,
      s.Grows { s with frames := s.frames ++ frames.toArray } := by
    intro s
    refine .setFrames s fun i x hx => ⟨x, ?_, .refl x⟩
    rw [Array.getElem?_append_left (Array.getElem?_eq_some_iff.1 hx).1, hx]
  unfold Action.newFrames
  simp only [foldl_push_eq_append]
  refine change hgrows fun w _ hs hw => ⟨?_, ?_⟩
  · refine { hs with frames := fun frame hframe => ?_ }
    rcases Array.mem_append.1 hframe with hframe | hframe
    · exact hs.frames frame hframe
    · exact h w hw.now frame (by simpa using hframe)
  -- the frames are new and may be written to, except that the names that are held are closed in them
  · let closed : Set Place := {p | ∃ id name, p = .binding id name ∧ held name}
    refine ⟨w.extend _ (hgrows w.state) closed, World.step_extend _ closed ?_, rfl, ?_⟩
    · exact Place.kept_of_frames fun id hid => Array.getElem?_append_left hid
    · intro w' hw id hid
      obtain ⟨i, hi, rfl⟩ := List.mem_map.1 hid
      have hi : i < frames.length := List.mem_range.1 hi
      refine ⟨frames[i], List.getElem_mem hi, World.Made.later (w := w.extend _ _ closed) ?_ hw⟩
      have hnew : (w.state.frames ++ frames.toArray)[w.state.frames.size + i]? =
          some frames[i] := by
        rw [Array.getElem?_append_right (by omega)]
        simp [hi]
      have hmade : ∀ p : Place, (p = .frame (w.state.frames.size + i) ∨
          ∃ name, p = .binding (w.state.frames.size + i) name) → p ∈ Place.made w.state
            { w.state with frames := w.state.frames ++ frames.toArray } := by
        rintro p (rfl | ⟨name, rfl⟩) <;>
          simp [Place.made, Place.Exists] <;> omega
      exact {
        place := ⟨_, hnew, .refl _⟩
        may := .inr ⟨hmade _ (.inl rfl), by rintro ⟨id, name, h, _⟩; cases h⟩
        mine := .inr (hmade _ (.inl rfl))
        names := fun name hname => .inr ⟨hmade _ (.inr ⟨name, rfl⟩), by
          rintro ⟨id, name', h, hheld⟩
          cases h
          exact hname hheld⟩
        own := fun name => .inr (hmade _ (.inr ⟨name, rfl⟩))
        closed := by
          rintro name hname (h | h)
          · exact (hmade _ (.inr ⟨name, rfl⟩)).2 (w.may_exists _ h)
          · exact h.2 ⟨_, name, rfl, hname⟩
        bound := fun name _ => by
          change ((w.state.frames ++ frames.toArray)[w.state.frames.size + i]?).bind _ = _
          rw [hnew]
          rfl }

/-- A frame is made. -/
theorem newFrame {frame : Frame} (h : ∀ w, pre w → Bindings.Admitted π frame.bindings) :
    π.Triple pre (Action.newFrame frame) (Action.newFrame frame)
      fun id w => w.Made (fun _ => False) id frame := by
  have hgrows : ∀ s : State, s.Grows { s with frames := s.frames.push frame } :=
    fun s => .setFrames s (.push Frame.SamePlace.refl _ _)
  refine change hgrows fun w _ hs hw => ⟨?_, ?_⟩
  · refine { hs with frames := fun f hf => ?_ }
    rcases Array.mem_push.1 hf with hf | rfl
    · exact hs.frames f hf
    · exact h w hw.now
  · refine ⟨w.extend _ (hgrows w.state) ∅, World.step_extend _ ∅ ?_, rfl, ?_⟩
    · exact Place.kept_of_frames fun id hid => by
        rw [Array.getElem?_push, if_neg (by omega)]
    · intro w' hw
      refine World.Made.later (w := w.extend _ _ ∅) ?_ hw
      have hmade : ∀ p : Place, (p = .frame w.state.frames.size ∨
          ∃ name, p = .binding w.state.frames.size name) → p ∈ Place.made w.state
            { w.state with frames := w.state.frames.push frame } := by
        rintro p (rfl | ⟨name, rfl⟩) <;> simp [Place.made, Place.Exists]
      exact {
        place := ⟨frame, by simp [World.extend], .refl _⟩
        may := .inr ⟨hmade _ (.inl rfl), Set.notMem_empty _⟩
        mine := .inr (hmade _ (.inl rfl))
        names := fun name _ => .inr ⟨hmade _ (.inr ⟨name, rfl⟩), Set.notMem_empty _⟩
        own := fun name => .inr (hmade _ (.inr ⟨name, rfl⟩))
        closed := fun _ h => h.elim
        bound := fun _ h => h.elim }

/-! ### Making contexts and scopes -/

/-- A context is made. -/
theorem newContext {c : Context} (h : ∀ w, pre w → Bindings.Admitted π c.globals ∧
    Bindings.Admitted π c.bindings ∧ ∀ entry ∈ c.blocks, ∀ block ∈ entry.2, π.block block) :
    π.Triple pre (Action.newContext c) (Action.newContext c) fun id w => w.MadeContext id := by
  have hgrows : ∀ s : State, s.Grows { s with contexts := s.contexts.push c } :=
    fun s => .setContexts s (.push Context.SameGlobals.refl _ _)
  refine change hgrows fun w _ hs hw => ⟨?_, ?_⟩
  · obtain ⟨hglobals, hbindings, hblocks⟩ := h w hw.now
    have hmem : ∀ {P : Context → Prop}, (∀ d ∈ w.state.contexts, P d) → P c →
        ∀ d ∈ w.state.contexts.push c, P d := by
      intro P hold hnew d hd
      rcases Array.mem_push.1 hd with hd | rfl
      · exact hold d hd
      · exact hnew
    exact { hs with
      globals := hmem hs.globals hglobals
      bindings := hmem hs.bindings hbindings
      blocks := hmem hs.blocks hblocks }
  · refine ⟨w.extend _ (hgrows w.state) ∅, World.step_extend _ ∅ ?_, rfl, ?_⟩
    · exact Place.kept_of_contexts fun id hid => by
        rw [Array.getElem?_push, if_neg (by omega)]
    · intro w' hw
      refine World.MadeContext.later (w := w.extend _ _ ∅) ?_ hw
      constructor <;> intros <;>
        exact .inr ⟨by simp [Place.made, Place.Exists], Set.notMem_empty _⟩

/-- A scope is made, in which no template is extended yet. -/
theorem create (context : ContextId) (path : String) (block : Option BlockDef) :
    π.Triple pre (Scope.create context path block) (Scope.create context path block)
      fun scope w => scope.context = context ∧ scope.path = path ∧ scope.block = block ∧
        .parent scope.parent ∈ w.may ∧ .parent scope.parent ∈ w.mine := by
  have hgrows : ∀ s : State, s.Grows { s with parents := s.parents.push none } :=
    fun s => .setParents s (by simp)
  refine change hgrows fun w _ hs _ => ⟨{ hs with }, ?_⟩
  refine ⟨w.extend _ (hgrows w.state) ∅, World.step_extend _ ∅ ?_, rfl, fun w' hw => ?_⟩
  · exact Place.kept_of_parents fun n hn => by
      rw [Array.getElem?_push, if_neg (by omega)]
  · have hmade : Place.parent w.state.parents.size ∈ Place.made w.state
        { w.state with parents := w.state.parents.push none } := by
      simp [Place.made, Place.Exists]
    exact ⟨rfl, rfl, rfl, hw.may_le (.inr ⟨hmade, Set.notMem_empty _⟩), hw.mine_le (.inr hmade)⟩

/-! ### Changes that concern no frame and no context -/

/-- A change after which the state holds the same. -/
theorem sameStore {f : State → State} (hf : ∀ s : State, s.SameStore (f s)) :
    π.Triple pre (Action.modify f) (Action.modify f) fun _ _ => True := by
  refine modify (fun s => (hf s).grows) fun w _ hs _ => ⟨(hf _).sound hs, ?_⟩
  exact ⟨_, (hf w.state).step, rfl, .of_forall fun _ => trivial⟩

/-- A number that is new. -/
theorem newNumber : π.Triple pre Action.newNumber Action.newNumber fun _ _ => True := by
  have hsame : ∀ s : State, s.SameStore { s with next := s.next + 1 } :=
    fun s => { State.SameStore.refl s with next := Nat.le_succ _ }
  refine change (fun s => (hsame s).grows) fun w _ hs _ => ⟨(hsame _).sound hs, ?_⟩
  exact ⟨_, (hsame w.state).step, rfl, .of_forall fun _ => trivial⟩

/-! ### Binding names -/

/-- A name is bound from a frame. -/
theorem setName {id : FrameId} {name : String} {v : Value} (up : Bool)
    (hv : ∀ w, pre w → v.Admitted π) (hpre : ∀ w, pre w → w.MayBind up id name) :
    π.Triple pre (Action.setName id name v up) (Action.setName id name v up)
      fun _ _ => True := by
  have hgrows : ∀ s : State, s.Grows { s with frames := s.frames.set id name v up } :=
    fun s => .setFrames s (.modify Frame.SamePlace.refl _ _ _ fun f _ => .refl f)
  refine modify hgrows fun w _ hs hw => ⟨?_, ?_⟩
  · refine { hs with frames := fun f hf => ?_ }
    change f ∈ w.state.frames.set id name v up at hf
    unfold Frames.set Frames.bind at hf
    rcases mem_modify hf with hf | ⟨g, hg, rfl⟩
    · exact hs.frames f hf
    · exact Bindings.Admitted.insert (hs.frame hg) (hv w hw.now) name
  · refine ⟨_, World.step_move (hgrows w.state) fun p hp hmay => ?_, rfl, .of_forall fun _ => trivial⟩
    -- the frame that is written to is the one that the name was resolved to, and else the frame itself
    generalize htarget : (if up then (w.state.frames.resolve id name true).getD id else id) = target
    have hwhere : target = id ∨
        (up = true ∧ w.state.frames.resolve id name true = some target) := by
      subst htarget
      cases up with
      | false => exact .inl rfl
      | true =>
          cases hr : w.state.frames.resolve id name true with
          | none => exact .inl rfl
          | some t => exact .inr ⟨rfl, rfl⟩
    have hset : w.state.frames.set id name v up = w.state.frames.bind target name v := by
      rw [Frames.set, htarget]
    have hplaces := hpre w hw.now target hwhere
    rw [hset]
    cases p with
    | frame i =>
        have hne : target ≠ i := by
          rintro rfl
          exact hmay (hplaces hp).1
        simp [Place.Kept, Frames.bind, Array.getElem?_modify, hne]
    | binding i x =>
        by_cases hi : target = i
        · subst hi
          have hne : x ≠ name := by
            rintro rfl
            exact hmay (hplaces hp).2
          cases hf : w.state.frames[target]? <;>
            simp [Place.Kept, Frames.bind, Array.getElem?_modify, hf,
              Named.get?_insert_of_ne _ _ hne]
        · simp [Place.Kept, Frames.bind, Array.getElem?_modify, hi]
    | context _ | member _ _ | exported _ | blocks _ | parent _ => rfl

/-- A name is bound in a context, and offered for import if so told. -/
theorem bindContext {id : ContextId} {name : String} {v : Value} (offered : Bool)
    (hv : ∀ w, pre w → v.Admitted π) (hpre : ∀ w, pre w → w.MayPublish offered id name) :
    let f : Context → Context := fun c =>
      let c := c.bind name v
      if offered then c.addExport name else c
    π.Triple pre (Action.modifyContext id f) (Action.modifyContext id f) fun _ _ => True := by
  intro f
  have hglobals : ∀ c, (f c).globals = c.globals := by
    intro c
    simp only [f, Context.addExport]
    split
    · split <;> rfl
    · rfl
  have hbindings : ∀ c, (f c).bindings = c.bindings.insert name v := by
    intro c
    simp only [f, Context.addExport]
    split
    · split <;> rfl
    · rfl
  have hblocks : ∀ c, (f c).blocks = c.blocks := by
    intro c
    simp only [f, Context.addExport]
    split
    · split <;> rfl
    · rfl
  have hexported : offered = false → ∀ c, (f c).exported = c.exported := by
    intro hoffered c
    simp [f, hoffered, Context.bind]
  have hgrows : ∀ s : State, s.Grows { s with contexts := s.contexts.modify id f } :=
    fun s => .setContexts s (.modify Context.SameGlobals.refl _ _ _ fun c _ => hglobals c)
  -- What is admitted stays so.  Of the places of the store only those change that may be changed here, so that
  -- a place where nothing may be changed is not the one of the binding.
  refine modify hgrows fun w _ hs hw => ⟨hs.modifyContext id ?_ ?_ ?_, ?_⟩
  · exact fun c hc => (hglobals c).symm ▸ hc
  · exact fun c hc => (hbindings c).symm ▸ hc.insert (hv w hw.now) name
  · exact fun c hc => (hblocks c).symm ▸ hc
  · refine ⟨_, World.step_move (hgrows w.state) fun p hp hmay => ?_, rfl, .of_forall fun _ => trivial⟩
    obtain ⟨hcontext, hmember, hoffer⟩ := hpre w hw.now
    cases p with
    | frame _ | binding _ _ | parent _ => rfl
    | context i =>
        have hne : id ≠ i := by
          rintro rfl
          exact hmay hcontext
        simp [Place.Kept, Array.getElem?_modify, hne]
    | member i x =>
        by_cases hi : id = i
        · subst hi
          have hne : x ≠ name := by
            rintro rfl
            exact hmay hmember
          cases hc : w.state.contexts[id]? <;>
            simp [Place.Kept, Array.getElem?_modify, hc, hbindings,
              Named.get?_insert_of_ne _ _ hne]
        · simp [Place.Kept, Array.getElem?_modify, hi]
    | exported i =>
        by_cases hi : id = i
        · subst hi
          have hoffered : offered = false := by
            cases offered with
            | false => rfl
            | true => exact absurd (hoffer rfl) hmay
          cases hc : w.state.contexts[id]? <;>
            simp [Place.Kept, Array.getElem?_modify, hc, hexported hoffered]
        · simp [Place.Kept, Array.getElem?_modify, hi]
    | blocks i =>
        by_cases hi : id = i
        · subst hi
          cases hc : w.state.contexts[id]? <;>
            simp [Place.Kept, Array.getElem?_modify, hc, hblocks]
        · simp [Place.Kept, Array.getElem?_modify, hi]

/-- Whether a frame is at the top level of a template never changes. -/
theorem isTopLevel_eq {s s' : State} (h : s.Grows s') {id : FrameId} (hid : id < s.frames.size) :
    s'.frames.isTopLevel id = s.frames.isTopLevel id := by
  have hf := Array.getElem?_eq_getElem hid
  obtain ⟨f', hf', hsame⟩ := h.frames id _ hf
  unfold Frames.isTopLevel
  rw [hf, hf', Option.any_some, Option.any_some]
  exact hsame.2.2

/-- A frame at the top level of a template stays there. -/
theorem isTopLevel_mono {s s' : State} (h : s.Grows s') {id : FrameId}
    (hid : s.frames.isTopLevel id = true) : s'.frames.isTopLevel id = true := by
  rw [isTopLevel_eq h, hid]
  refine Nat.lt_of_not_le fun hle => ?_
  simp [Frames.isTopLevel, Array.getElem?_eq_none hle] at hid

/-- A name is bound as code binds it: from a frame, and at the top level in the context too. -/
theorem scopeBind {scope : Scope} {frame : FrameId} {name : String} {v : Value}
    (up offered : Bool) (hv : ∀ w, pre w → v.Admitted π)
    (hbind : ∀ w, pre w → w.MayBind up frame name)
    (hpublish : ∀ w, pre w → w.state.frames.isTopLevel frame = true →
      w.MayPublish offered scope.context name) :
    π.Triple pre (scope.bind frame name v up offered) (scope.bind frame name v up offered)
      fun _ _ => True := by
  unfold Scope.bind
  refine (setName up hv hbind).bind fun _ => ?_
  refine bind (m := fun b w => b = true → w.state.frames.isTopLevel frame = true) ?_ fun b => ?_
  · exact read fun w _ _ _ w' hw hb => isTopLevel_mono hw.grows hb
  · cases b with
    | false => exact pure fun _ _ => trivial
    | true =>
        refine (bindContext (offered && name.toList.head? != some '_') (fun w hw => hv w hw.1.1) fun w hw => ?_)
        obtain ⟨hcontext, hmember, hexported⟩ := hpublish w hw.1.1 (hw.2 rfl)
        exact ⟨hcontext, hmember, fun h => hexported (Bool.and_eq_true_iff.1 h).1⟩

/-! ### Inheritance -/

theorem foldl_addBlock_globals (blocks : List BlockDef) (c : Context) :
    (blocks.foldl Context.addBlock c).globals = c.globals ∧
      (blocks.foldl Context.addBlock c).bindings = c.bindings ∧
        (blocks.foldl Context.addBlock c).exported = c.exported := by
  induction blocks generalizing c with
  | nil => exact ⟨rfl, rfl, rfl⟩
  | cons b rest ih => exact ih (c.addBlock b)

theorem foldl_addBlock_blocks {P : BlockDef → Prop} {blocks : List BlockDef} {c : Context}
    (hblocks : ∀ b ∈ blocks, P b) (hc : ∀ entry ∈ c.blocks, ∀ b ∈ entry.2, P b) :
    ∀ entry ∈ (blocks.foldl Context.addBlock c).blocks, ∀ b ∈ entry.2, P b := by
  induction blocks generalizing c with
  | nil => exact hc
  | cons b rest ih =>
      refine ih (fun d hd => hblocks d (List.mem_cons_of_mem _ hd)) fun entry hentry d hd => ?_
      rcases Named.mem_of_mem_insert hentry with rfl | hentry
      · rcases List.mem_append.1 hd with hd | hd
        · unfold Context.entries at hd
          cases hold : c.blocks.get? b.name with
          | none => simp [hold] at hd
          | some old =>
              rw [hold] at hd
              exact hc _ (Named.mem_of_get? hold) d hd
        · rw [List.mem_singleton.1 hd]
          exact hblocks b List.mem_cons_self
      · exact hc entry hentry d hd

/-- The blocks of an extended template are added to a context. -/
theorem addBlocks {id : ContextId} {blocks : List BlockDef}
    (h : ∀ w, pre w → (∀ b ∈ blocks, π.block b) ∧ .blocks id ∈ w.may) :
    π.Triple pre (Action.modifyContext id fun c => blocks.foldl Context.addBlock c)
      (Action.modifyContext id fun c => blocks.foldl Context.addBlock c) fun _ _ => True := by
  have hsame := foldl_addBlock_globals blocks
  have hgrows : ∀ s : State, s.Grows { s with
      contexts := s.contexts.modify id fun c => blocks.foldl Context.addBlock c } :=
    fun s => .setContexts s (.modify Context.SameGlobals.refl _ _ _ fun c _ => (hsame c).1)
  refine modify hgrows fun w _ hs hw => ⟨hs.modifyContext id ?_ ?_ ?_, ?_⟩
  · exact fun c hc => (hsame c).1.symm ▸ hc
  · exact fun c hc => (hsame c).2.1.symm ▸ hc
  · exact fun c hc => foldl_addBlock_blocks (h w hw.now).1 hc
  · refine ⟨_, World.step_move (hgrows w.state) fun p hp hmay => ?_, rfl, .of_forall fun _ => trivial⟩
    cases p with
    | frame _ | binding _ _ | parent _ => rfl
    | context i | member i _ | exported i =>
        by_cases hi : id = i
        · subst hi
          cases hc : w.state.contexts[id]? <;>
            simp [Place.Kept, Array.getElem?_modify, hc, (hsame _).2.1, (hsame _).2.2]
        · simp [Place.Kept, Array.getElem?_modify, hi]
    | blocks i =>
        have hne : id ≠ i := by
          rintro rfl
          exact hmay (h w hw.now).2
        simp [Place.Kept, Array.getElem?_modify, hne]

/-- The template of a scope extends another. -/
theorem setExtended {scope : Scope} {parent : TemplateId}
    (h : ∀ w, pre w → .parent scope.parent ∈ w.may) :
    π.Triple pre (scope.setExtended parent) (scope.setExtended parent) fun _ _ => True := by
  have hgrows : ∀ s : State, s.Grows { s with
      parents := s.parents.modify scope.parent fun _ => some parent } :=
    fun s => .setParents s (by simp)
  refine modify hgrows fun w _ hs hw => ⟨{ hs with }, ?_⟩
  refine ⟨_, World.step_move (hgrows w.state) fun p hp hmay => ?_, rfl, .of_forall fun _ => trivial⟩
  cases p with
  | frame _ | binding _ _ | context _ | member _ _ | exported _ | blocks _ => rfl
  | parent n =>
      have hne : scope.parent ≠ n := by
        rintro rfl
        exact hmay (h w hw.now)
      simp [Place.Kept, Array.getElem?_modify, hne]

end Triple

end Policy

end Stencil
