/-
**Two actions side by side.**

An action is compared with a reference: from the same state both give the same answer and leave the
same state, as long as the reference does not give up.  While they run, what the policy watches for
is kept: the state stays sound, only what the action may write is written, and no other errors arise
than those that may.  With an action as its own reference this is what is known of a single action.

All of this is only asked of runs in which the templates that are loaded in the end are as the
policy assumes.

Main definitions:

* `Stencil.Policy.Follows` — a polled action and its polled reference;
* `Stencil.Policy.Triple` — an action and its reference, with what is known before and after.

Main results:

* `Stencil.Policy.Triple.bind`, `Stencil.Policy.Triple.appendAll`, `Stencil.Policy.Triple.sequence` —
  actions one after the other;
* `Stencil.Policy.Follows.finish` — what is known of an action that is polled until it answers.
-/

import Stencil.Proofs.Logic.Admission

set_option autoImplicit false

namespace Stencil

/-! ### States that hold the same -/

/-- Two states with the same frames, contexts and templates. -/
structure State.SameStore (s s' : State) : Prop where
  frames : s'.frames = s.frames
  contexts : s'.contexts = s.contexts
  parents : s'.parents = s.parents
  templates : s'.templates = s.templates
  functions : s'.functions = s.functions
  next : s.next ≤ s'.next

namespace State.SameStore

variable {s s' : State}

theorem refl (s : State) : s.SameStore s := ⟨rfl, rfl, rfl, rfl, rfl, Nat.le_refl _⟩

theorem grows (h : s.SameStore s') : s.Grows s' where
  frames := h.frames ▸ Extends.refl Frame.SamePlace.refl _
  contexts := h.contexts ▸ Extends.refl Context.SameGlobals.refl _
  parents := h.parents ▸ Nat.le_refl _
  templates := h.templates ▸ Extends.refl Template.SameSource.refl _
  functions := h.functions
  next := h.next

theorem kept (h : s.SameStore s') (p : Place) : p.Kept s s' := by
  cases p <;> simp only [Place.Kept, h.frames, h.contexts, h.parents]

theorem sound {π : Policy} (h : s.SameStore s') (hs : π.Sound s) : π.Sound s' where
  frames := h.frames ▸ hs.frames
  globals := h.contexts ▸ hs.globals
  bindings := h.contexts ▸ hs.bindings
  blocks := h.contexts ▸ hs.blocks
  templates := h.templates ▸ hs.templates
  functions := h.functions ▸ hs.functions

end State.SameStore

/-- A polled action that has no access to what a run holds: it gives only some results, and fails only
with some errors. -/
def Poll.Apart {α : Type} (gives : α → Prop) (fails : Cause → Prop) : State → Poll α → Prop
  | s, .done answer s' => s.SameStore s' ∧ (∀ a, answer = .ok a → gives a) ∧
      ∀ e, answer = .error e → fails e.cause
  | s, .wait s' rest => s.SameStore s' ∧ ∀ s'', (rest s'').Apart gives fails s''

theorem Poll.Apart.climbs {α : Type} {gives : α → Prop} {fails : Cause → Prop} {s : State}
    {p : Poll α} (h : p.Apart gives fails s) : p.Climbs s := by
  induction p generalizing s with
  | done answer s' => exact h.1.grows
  | wait s' rest ih => exact ⟨h.1.grows, fun s'' _ => ih s'' (h.2 s'')⟩

/-- The world with another state that has all its places. -/
def World.move (w : World) (s : State) (h : w.state.Grows s) : World where
  state := s
  may := w.may
  mine := w.mine
  may_exists p hp := (w.may_exists p hp).mono h
  mine_exists p hp := (w.mine_exists p hp).mono h

theorem State.SameStore.step {w : World} {s : State} (h : w.state.SameStore s) :
    w.Step (w.move s h.grows) where
  grows := h.grows
  kept p _ _ := h.kept p
  may_le := subset_rfl
  may_made := Set.subset_union_left
  mine_le := subset_rfl
  mine_made := Set.subset_union_left

/-- An error keeps its cause when it passes the boundary of a template. -/
theorem TemplateError.cause_through (e : TemplateError) (name : String) :
    (e.through name).cause = e.cause := by
  unfold TemplateError.through
  split
  · rfl
  · split <;> rfl

namespace Policy

variable (π : Policy) {α β : Type}

/-! ### Polled actions -/

/-- The reference gives up. -/
def GivesUp (q : Poll α) : Prop := ∃ e s, π.stray e.cause ∧ q = .done (.error e) s

/-- What is known in the end: something about the answer, or that the error may arise. -/
def Outcome (post : α → World → Prop) (w : World) : Except TemplateError α → Prop
  | .ok a => post a w
  | .error e => π.cause e.cause

/-- A polled action follows its reference from a world on. -/
def Follows (post : α → World → Prop) : World → Poll α → Poll α → Prop
  | w, .done answer s, q => π.Loaded s → π.GivesUp q ∨
      (q = .done answer s ∧ π.Sound s ∧
        ∃ w', w.Step w' ∧ w'.state = s ∧ π.Outcome post w' answer)
  | w, .wait s rest, q => π.Loaded s → π.GivesUp q ∨ ∃ rest', q = .wait s rest' ∧ π.Sound s ∧
      ∃ w', w.Step w' ∧ w'.state = s ∧
        ∀ w'', w'.Rely w'' → π.Loaded w''.state → π.Sound w''.state →
          Follows post w'' (rest w''.state) (rest' w''.state)

variable {π} in
/-- A reference that gave up does not go on. -/
theorem GivesUp.finish {q : Poll α} (h : π.GivesUp q) (n : Nat) :
    ∃ e s, π.stray e.cause ∧ q.finish n = (some (.error e), s) := by
  obtain ⟨e, s, he, rfl⟩ := h
  exact ⟨e, s, he, by cases n <;> rfl⟩

namespace Follows

variable {π} {post m : α → World → Prop} {w : World} {p q : Poll α}

theorem of_loaded {s : State} (hp : p.Climbs s)
    (h : π.Loaded s → π.Follows post w p q) : π.Follows post w p q := by
  cases p with
  | done answer s' => exact fun hl => h (hl.of_grows hp) hl
  | wait s' rest => exact fun hl => h (hl.of_grows hp.1) hl

theorem of_givesUp (h : π.GivesUp q) : π.Follows post w p q := by
  cases p <;> exact fun _ => .inl h

theorem of_step {w' : World} (hw : w.Step w') (h : π.Follows post w' p q) :
    π.Follows post w p q := by
  cases p with
  | done answer s =>
      intro hl
      rcases h hl with h | ⟨rfl, hs, w'', hw', hstate, hout⟩
      · exact .inl h
      · exact .inr ⟨rfl, hs, w'', hw.trans hw', hstate, hout⟩
  | wait s rest =>
      intro hl
      rcases h hl with h | ⟨rest', rfl, hs, w'', hw', hstate, hrest⟩
      · exact .inl h
      · exact .inr ⟨rest', rfl, hs, w'', hw.trans hw', hstate, hrest⟩

theorem mono {post' : α → World → Prop} (h : π.Follows post w p q)
    (hpost : ∀ a w', w.Later w' → post a w' → post' a w') :
    π.Follows post' w p q := by
  induction p generalizing w q with
  | done answer s =>
      intro hl
      rcases h hl with h | ⟨rfl, hs, w', hw, hstate, hout⟩
      · exact .inl h
      · refine .inr ⟨rfl, hs, w', hw, hstate, ?_⟩
        cases answer with
        | ok a => exact hpost a w' hw.later hout
        | error e => exact hout
  | wait s rest ih =>
      intro hl
      rcases h hl with h | ⟨rest', rfl, hs, w', hw, hstate, h⟩
      · exact .inl h
      · exact .inr ⟨rest', rfl, hs, w', hw, hstate, fun w'' hw'' hl'' hs'' =>
          ih _ (h w'' hw'' hl'' hs'') fun a w₃ hw₃ =>
            hpost a w₃ (hw.later.trans (hw''.later.trans hw₃))⟩

/-- One action after another. -/
theorem bind {post : β → World → Prop} {f f' : α → State → Poll β} (h : π.Follows m w p q)
    (hclimbs : ∀ a s, (f a s).Climbs s)
    (hf : ∀ a w', w.Later w' → π.Loaded w'.state → π.Sound w'.state → m a w' →
      π.Follows post w' (f a w'.state) (f' a w'.state)) :
    π.Follows post w (p.bind f) (q.bind f') := by
  induction p generalizing w q with
  | done answer s =>
      cases answer with
      | ok a =>
          refine of_loaded (hclimbs a s) fun hl => ?_
          rcases h hl with ⟨e, s', he, rfl⟩ | ⟨rfl, hs, w', hw, rfl, hout⟩
          · exact of_givesUp ⟨e, s', he, rfl⟩
          · exact of_step hw (hf a w' hw.later hl hs hout)
      | error e =>
          intro hl
          rcases h hl with ⟨e', s', he, rfl⟩ | ⟨rfl, hs, w', hw, hstate, hout⟩
          · exact .inl ⟨e', s', he, rfl⟩
          · exact .inr ⟨rfl, hs, w', hw, hstate, hout⟩
  | wait s rest ih =>
      intro hl
      rcases h hl with ⟨e, s', he, rfl⟩ | ⟨rest', rfl, hs, w', hw, hstate, h⟩
      · exact .inl ⟨e, s', he, rfl⟩
      · refine .inr ⟨_, rfl, hs, w', hw, hstate, fun w'' hw'' hl'' hs'' => ?_⟩
        refine ih _ (h w'' hw'' hl'' hs'') fun a w₃ hw₃ => ?_
        exact hf a w₃ (hw.later.trans (hw''.later.trans hw₃))

/-- An answer and the state with it are changed. -/
theorem mapAnswer {post : β → World → Prop}
    {f : Except TemplateError α → Except TemplateError β} {g : State → State}
    (h : π.Follows m w p q) (hg : ∀ s : State, s.SameStore (g s))
    (hf : ∀ w' answer, π.Outcome m w' answer →
      π.Outcome post (w'.move (g w'.state) (hg w'.state).grows) (f answer))
    (hstray : ∀ e : TemplateError, π.stray e.cause → ∃ e', f (.error e) = .error e' ∧
      π.stray e'.cause) : π.Follows post w (p.mapAnswer f g) (q.mapAnswer f g) := by
  have hup : ∀ q : Poll α, π.GivesUp q → π.GivesUp (q.mapAnswer f g) := by
    rintro _ ⟨e, s, he, rfl⟩
    obtain ⟨e', hfe, he'⟩ := hstray e he
    exact ⟨e', g s, he', by rw [Poll.mapAnswer, hfe]⟩
  induction p generalizing w q with
  | done answer s =>
      intro hl
      rcases h (hl.of_grows (hg s).grows) with h | ⟨rfl, hs, w', hw, rfl, hout⟩
      · exact .inl (hup q h)
      · exact .inr ⟨rfl, (hg w'.state).sound hs, _, hw.trans (hg w'.state).step, rfl,
          hf w' answer hout⟩
  | wait s rest ih =>
      intro hl
      rcases h hl with h | ⟨rest', rfl, hs, w', hw, hstate, h⟩
      · exact .inl (hup q h)
      · exact .inr ⟨_, rfl, hs, w', hw, hstate, fun w'' hw'' hl'' hs'' =>
          ih _ (h w'' hw'' hl'' hs'')⟩

theorem map {post : β → World → Prop} {f : α → β} (h : π.Follows m w p q)
    (hf : ∀ a w', m a w' → post (f a) w') : π.Follows post w (p.map f) (q.map f) := by
  refine h.mapAnswer .refl ?_ fun e he => ⟨e, rfl, he⟩
  intro w' answer hout
  cases answer with
  | ok a => exact hf a w' hout
  | error e => exact hout

/-- An action that could write less and had less to rely on: what was frozen for it is as it was. -/
theorem narrow {v : World} (h : π.Follows post v p q) (hstate : v.state = w.state)
    (hmay : v.may ⊆ w.may) (hmine : v.mine ⊆ w.mine) :
    π.Follows (fun a w' => ∃ v', v.Later v' ∧ v'.state = w'.state ∧ post a v') w p q := by
  -- `u` is the world in which the action started, `v` the one it knows, and `w` the one that surrounds it
  have main : ∀ (p : Poll α) (u v w : World) (q : Poll α), u.Later v → π.Follows post v p q →
      v.state = w.state → v.may ⊆ w.may → v.mine ⊆ w.mine →
        π.Follows (fun a w' => ∃ v', u.Later v' ∧ v'.state = w'.state ∧ post a v') w p q := by
    intro p u
    induction p with
    | done answer s =>
        intro v w q hu h hstate hmay hmine hl
        rcases h hl with h | ⟨rfl, hs, v', hv, rfl, hout⟩
        · exact .inl h
        · have hw := hv.widen hstate hmay hmine (hstate ▸ hv.grows)
          refine .inr ⟨rfl, hs, _, hw, rfl, ?_⟩
          cases answer with
          | ok a => exact ⟨v', hu.trans hv.later, rfl, hout⟩
          | error e => exact hout
    | wait s rest ih =>
        intro v w q hu h hstate hmay hmine hl
        rcases h hl with h | ⟨rest', rfl, hs, v', hv, rfl, hrest⟩
        · exact .inl h
        · have hw := hv.widen hstate hmay hmine (hstate ▸ hv.grows)
          refine .inr ⟨rest', rfl, hs, _, hw, rfl, fun w'' hw'' hl'' hs'' => ?_⟩
          have hrely : v'.Rely (v'.move w''.state hw''.grows) :=
            { grows := hw''.grows
              kept := fun p hp => hw''.kept p (.inr hp)
              may := rfl
              mine := rfl }
          have hnext := hrest (v'.move w''.state hw''.grows) hrely hl'' hs''
          exact ih w''.state _ _ _ (hu.trans (hv.later.trans hrely.later)) hnext rfl
            (Set.subset_union_right.trans hw''.may.ge)
            (Set.subset_union_right.trans hw''.mine.ge)
  exact main p v v w q (.refl v) h hstate hmay hmine

theorem widen {Q : α → Prop} {v : World} (h : π.Follows (fun a _ => Q a) v p q)
    (hstate : v.state = w.state) (hmay : v.may ⊆ w.may) (hmine : v.mine ⊆ w.mine) :
    π.Follows (fun a _ => Q a) w p q := by
  refine (h.narrow hstate hmay hmine).mono fun a w' _ ha => ?_
  obtain ⟨_, _, _, hQ⟩ := ha
  exact hQ

/-- An action that has no access to what a run holds. -/
theorem of_apart {gives : α → Prop} {fails : Cause → Prop} (hfails : ∀ c, fails c → π.cause c)
    (h : p.Apart gives fails w.state) (hs : π.Sound w.state) :
    π.Follows (fun a _ => gives a) w p p := by
  induction p generalizing w with
  | done answer s =>
      refine fun _ => .inr ⟨rfl, h.1.sound hs, _, h.1.step, rfl, ?_⟩
      cases answer with
      | ok a => exact h.2.1 a rfl
      | error e => exact hfails _ (h.2.2 e rfl)
  | wait s rest ih =>
      exact fun _ => .inr ⟨rest, rfl, h.1.sound hs, _, h.1.step, rfl,
        fun w'' _ _ hs'' => ih _ (h.2 w''.state) hs''⟩

/-- What is known of an action that is polled again and again, with nobody else around. -/
theorem finish {n : Nat} {r : Option (Except TemplateError α)} {s : State}
    (h : π.Follows post w p q) (hp : p.Climbs w.state) (hfinish : p.finish n = (r, s))
    (hl : π.Loaded s) :
    (∃ e s', π.stray e.cause ∧ q.finish n = (some (.error e), s')) ∨
      (q.finish n = (r, s) ∧ π.Sound s ∧
        ∀ answer, r = some answer → ∃ w', w'.state = s ∧ π.Outcome post w' answer) := by
  -- By induction on the action.  While it waits nobody else takes a step, so that it is polled in the state
  -- that it left.
  induction p generalizing n w q with
  | done answer s' =>
      obtain ⟨rfl, rfl⟩ : some answer = r ∧ s' = s := by simpa [Poll.finish] using hfinish
      rcases h hl with h | ⟨rfl, hs, w', hw, hstate, hout⟩
      · exact .inl (h.finish n)
      · exact .inr ⟨hfinish, hs, fun _ ha => ⟨w', hstate, by cases ha; exact hout⟩⟩
  | wait s' rest ih =>
      cases n with
      | zero =>
          obtain ⟨rfl, rfl⟩ : none = r ∧ s' = s := by simpa [Poll.finish] using hfinish
          rcases h hl with h | ⟨rest', rfl, hs, _⟩
          · exact .inl (h.finish 0)
          · exact .inr ⟨rfl, hs, fun _ ha => by cases ha⟩
      | succ n =>
          have hnext : (rest s').finish n = (r, s) := by simpa [Poll.finish] using hfinish
          have hclimbs := hp.2 s' (.refl s')
          have hgrows : s'.Grows s := by
            have := hclimbs.finish n
            rwa [hnext] at this
          have hl' := hl.of_grows hgrows
          rcases h hl' with h | ⟨rest', rfl, hs, w', hw, rfl, hrest⟩
          · exact .inl (h.finish _)
          · have hrun := ih _ (hrest w' (.refl w') hl' hs) hclimbs hnext
            exact hrun

end Follows

/-! ### Actions -/

/-- An action follows its reference from all worlds of which something is known for good. -/
def Triple (pre : World → Prop) (x x' : Action α) (post : α → World → Prop) : Prop :=
  x.Climbs ∧ ∀ w, π.Loaded w.state → π.Sound w.state → Always pre w →
    π.Follows (fun a => Always (post a)) w (x w.state) (x' w.state)

namespace Triple

variable {π} {pre : World → Prop} {post m : α → World → Prop} {x x' : Action α}

theorem climbs (h : π.Triple pre x x' post) : x.Climbs := h.1

theorem follows (h : π.Triple pre x x' post) {w : World} (hs : π.Loaded w.state → π.Sound w.state)
    (hpre : Always pre w) :
    π.Follows (fun a => Always (post a)) w (x w.state) (x' w.state) :=
  .of_loaded (h.1 w.state) fun hl => h.2 w hl (hs hl) hpre

/-- What is known before may be more, and what is known after less. -/
theorem mono {pre' : World → Prop} {post' : α → World → Prop} (h : π.Triple pre x x' post)
    (hpre : ∀ w, pre' w → pre w) (hpost : ∀ a w, post a w → post' a w) :
    π.Triple pre' x x' post' :=
  ⟨h.1, fun w hl hs hw => (h.2 w hl hs (hw.mono hpre)).mono fun a _ _ ha => ha.mono (hpost a)⟩

theorem of_pre {pre' : World → Prop} (h : π.Triple pre x x' post) (hpre : ∀ w, pre' w → pre w) :
    π.Triple pre' x x' post :=
  h.mono hpre fun _ _ ha => ha

/-- What is known before for good is known after. -/
theorem keep (h : π.Triple pre x x' post) : π.Triple pre x x' fun a w => pre w ∧ post a w :=
  ⟨h.1, fun w hl hs hw => (h.2 w hl hs hw).mono fun _ _ hlater ha => (hw.later hlater).and ha⟩

/-- An action that answers at once. -/
theorem now {x : Action α} (answer : State → Except TemplateError α) (next : State → State)
    (hx : ∀ s, x s = .done (answer s) (next s)) (hgrows : ∀ s : State, s.Grows (next s))
    (h : ∀ w, π.Loaded (next w.state) → π.Sound w.state → Always pre w →
      π.Sound (next w.state) ∧
        ∃ w', w.Step w' ∧ w'.state = next w.state ∧
          π.Outcome (fun a => Always (post a)) w' (answer w.state)) :
    π.Triple pre x x post := by
  refine ⟨fun s => ?_, fun w _ hs hpre => ?_⟩
  · rw [hx]
    exact hgrows s
  · rw [hx]
    exact fun hl => .inr ⟨rfl, h w hl hs hpre⟩

/-- The state is changed at once. -/
theorem change {f : State → α × State} (hgrows : ∀ s : State, s.Grows (f s).2)
    (h : ∀ w, π.Loaded (f w.state).2 → π.Sound w.state → Always pre w → π.Sound (f w.state).2 ∧
      ∃ w', w.Step w' ∧ w'.state = (f w.state).2 ∧ Always (post (f w.state).1) w') :
    π.Triple pre (Action.change f) (Action.change f) post :=
  now (fun s => .ok (f s).1) (fun s => (f s).2) (fun _ => rfl) hgrows h

theorem modify {f : State → State} {post : Unit → World → Prop}
    (hgrows : ∀ s : State, s.Grows (f s))
    (h : ∀ w, π.Loaded (f w.state) → π.Sound w.state → Always pre w → π.Sound (f w.state) ∧
      ∃ w', w.Step w' ∧ w'.state = f w.state ∧ Always (post ()) w') :
    π.Triple pre (Action.modify f) (Action.modify f) post :=
  change (f := fun s => ((), f s)) hgrows h

/-- The state is read. -/
theorem read {f : State → α}
    (h : ∀ w, π.Loaded w.state → π.Sound w.state → Always pre w → Always (post (f w.state)) w) :
    π.Triple pre (Action.read f) (Action.read f) post :=
  now (fun s => .ok (f s)) id (fun _ => rfl) .refl fun w hl hs hpre =>
    ⟨hs, w, .refl w, rfl, h w hl hs hpre⟩

theorem ofExcept {r : Except TemplateError α} (hok : ∀ a, r = .ok a → ∀ w, pre w → post a w)
    (herror : ∀ e, r = .error e → ∀ w, pre w → π.cause e.cause) :
    π.Triple pre (Action.ofExcept r) (Action.ofExcept r) post := by
  refine now (fun _ => r) id (fun _ => rfl) .refl fun w _ hs hpre =>
    ⟨hs, w, .refl w, rfl, ?_⟩
  cases r with
  | ok a => exact hpre.mono (hok a rfl)
  | error e => exact herror e rfl w hpre.now

theorem pure {a : α} (h : ∀ w, pre w → post a w) : π.Triple pre (Pure.pure a) (Pure.pure a) post :=
  ofExcept (r := .ok a) (fun _ ha => by cases ha; exact h) (fun _ he => by cases he)

theorem fail {c : Cause} (h : ∀ w, pre w → π.cause c) :
    π.Triple pre (Action.fail c) (Action.fail c) post :=
  ofExcept (r := .error (.ofCause c)) (fun _ ha => by cases ha)
    (fun _ he => by cases he; exact h)

/-- A function of the host, which may note something down. -/
theorem ofImmediate {f : Immediate α} (hok : ∀ notes a, (f notes).1 = .ok a → ∀ w, pre w →
    post a w) (herror : ∀ notes e, (f notes).1 = .error e → ∀ w, pre w → π.cause e.cause) :
    π.Triple pre (Action.ofImmediate f) (Action.ofImmediate f) post := by
  have hsame : ∀ s : State, s.SameStore { s with notes := (f s.notes).2 } :=
    fun s => { State.SameStore.refl s with }
  refine now (fun s => (f s.notes).1) (fun s => { s with notes := (f s.notes).2 }) (fun _ => rfl)
    (fun s => (hsame s).grows) fun w _ hs hpre => ?_
  refine ⟨(hsame w.state).sound hs, _, (hsame w.state).step, rfl, ?_⟩
  cases hanswer : (f w.state.notes).1 with
  | ok a => exact Always.later (hpre.mono (hok _ a hanswer)) (hsame w.state).step.later
  | error e => exact herror _ e hanswer w hpre.now

/-- One action after another. -/
theorem bind {post : β → World → Prop} {f f' : α → Action β} (hx : π.Triple pre x x' m)
    (hf : ∀ a, π.Triple (fun w => pre w ∧ m a w) (f a) (f' a) post) :
    π.Triple pre (x >>= f) (x' >>= f') post := by
  refine ⟨hx.1.bind fun a => (hf a).1, fun w hl hs hpre => ?_⟩
  refine (hx.2 w hl hs hpre).bind (fun a => (hf a).1) fun a w' hw hl' hs' hmid => ?_
  exact (hf a).2 w' hl' hs' ((hpre.later hw).and hmid)

theorem mapAnswer {post : β → World → Prop}
    {f : Except TemplateError α → Except TemplateError β} {g : State → State}
    (h : π.Triple pre x x' m) (hg : ∀ s : State, s.SameStore (g s))
    (hf : ∀ w' answer, π.Outcome (fun a => Always (m a)) w' answer →
      π.Outcome (fun b => Always (post b)) w' (f answer))
    (hstray : ∀ e : TemplateError, π.stray e.cause → ∃ e', f (.error e) = .error e' ∧
      π.stray e'.cause) :
    π.Triple pre (fun s => (x s).mapAnswer f g) (fun s => (x' s).mapAnswer f g) post := by
  refine ⟨fun s => (h.1 s).mapAnswer f fun s => (hg s).grows, fun w hl hs hpre => ?_⟩
  refine (h.2 w hl hs hpre).mapAnswer hg (fun w' answer hout => ?_) hstray
  have hout' := hf w' answer hout
  cases hanswer : f answer with
  | ok b =>
      rw [hanswer] at hout'
      exact Always.later hout' (hg w'.state).step.later
  | error e =>
      rw [hanswer] at hout'
      exact hout'

theorem map {post : β → World → Prop} {f : α → β} (h : π.Triple pre x x' m)
    (hf : ∀ a w, pre w → m a w → post (f a) w) : π.Triple pre (f <$> x) (f <$> x') post :=
  h.bind fun a => pure fun w hw => hf a w hw.1 hw.2

theorem located (h : π.Triple pre x x' post) (p : Position) :
    π.Triple pre (Action.located p x) (Action.located p x') post := by
  refine h.mapAnswer .refl ?_ fun e he => ⟨_, rfl, he⟩
  intro w' answer hout
  cases answer <;> exact hout

theorem throughTemplate (h : π.Triple pre x x' post) (name : String) :
    π.Triple pre (Action.throughTemplate name x) (Action.throughTemplate name x') post := by
  refine h.mapAnswer .refl ?_ fun e he => ⟨_, rfl, (e.cause_through name).symm ▸ he⟩
  intro w' answer hout
  cases answer with
  | ok a => exact hout
  | error e =>
      change π.cause (e.through name).cause
      rw [e.cause_through]
      exact hout

theorem andFinally (h : π.Triple pre x x' post) {g : State → State}
    (hg : ∀ s : State, s.SameStore (g s)) :
    π.Triple pre (Action.andFinally x g) (Action.andFinally x' g) post :=
  h.mapAnswer hg (fun _ _ hout => hout) fun e he => ⟨e, rfl, he⟩

/-- An action that has no access to what a run holds. -/
theorem of_apart {gives : α → Prop} {fails : Cause → Prop} (hfails : ∀ c, fails c → π.cause c)
    (h : ∀ w, pre w → ∀ s, (x s).Apart gives fails s) (hclimbs : x.Climbs) :
    π.Triple pre x x fun a _ => gives a :=
  ⟨hclimbs, fun w _ hs hpre => (Follows.of_apart hfails (h w hpre.now w.state) hs).mono
    fun _ _ _ ha => .of_forall fun _ => ha⟩

/-- Actions one after the other. -/
theorem sequence {γ : Type} {f f' : γ → Action α} {Q : α → Prop} {cs : List γ}
    (h : ∀ c ∈ cs, π.Triple pre (f c) (f' c) fun a _ => Q a) :
    π.Triple pre (Action.sequence (cs.map f)) (Action.sequence (cs.map f'))
      fun as _ => ∀ a ∈ as, Q a := by
  induction cs generalizing pre with
  | nil => exact pure fun _ _ a ha => by simp at ha
  | cons c cs ih =>
      refine (h c List.mem_cons_self).bind fun a => ?_
      refine bind (m := fun as _ => ∀ a ∈ as, Q a) ?_ fun as => ?_
      · exact ih fun d hd => (h d (List.mem_cons_of_mem _ hd)).of_pre fun _ hw => hw.1
      · refine pure fun w hw b hb => ?_
        rcases List.mem_cons.1 hb with rfl | hb
        · exact hw.1.2
        · exact hw.2 b hb

/-- Outputs one after the other. -/
theorem appendAll {γ : Type} {f f' : γ → Action String} {Q : String → Prop}
    (hQ : ∀ a b, Q a → Q b → Q (a ++ b)) {cs : List γ} {out : String}
    (hout : ∀ w, pre w → Q out) (h : ∀ c ∈ cs, π.Triple pre (f c) (f' c) fun a _ => Q a) :
    π.Triple pre (Action.appendAll f out cs) (Action.appendAll f' out cs) fun a _ => Q a := by
  induction cs generalizing pre out with
  | nil => exact pure (a := out) hout
  | cons c cs ih =>
      rw [Action.appendAll_cons, Action.appendAll_cons]
      refine (h c List.mem_cons_self).bind fun text => ih ?_ fun d hd => ?_
      · exact fun w hw => hQ _ _ (hout w hw.1) hw.2
      · exact (h d (List.mem_cons_of_mem _ hd)).of_pre fun _ hw => hw.1

end Triple

end Policy

end Stencil
