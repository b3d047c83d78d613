/-
**Frames as one scoped map.**

Looking a name up, finding the frame that a write goes to, and collecting everything that is visible are three
walks over the same frames.  Each of them follows the path from a frame outwards, and all three tell the same:
a name has the value that the nearest frame on the path binds it to.

Main definitions:

* `Stencil.Frames.Made` — frames as a run makes them, with names set in them;
* `Stencil.Frames.Ordered` — what holds of frames that are made so;
* `Stencil.Frames.path` — a frame, the one that it lies inside of, and so on outwards;
* `Stencil.Frames.target` — the frame that a write from another one lands in.

Main results:

* `Stencil.Frames.Made.ordered` — what is made stays ordered;
* `Stencil.Frames.Ordered.path_eq` — the path of a frame is not cut off;
* `Stencil.Frames.lookup_eq`, `Stencil.Frames.resolve_eq`, `Stencil.Frames.Ordered.get?_flatten` — the three
  walks, by the path;
* `Stencil.Frames.nodup_flatten` — what is visible from a frame has distinct names;
* `Stencil.Frames.path_target` — where a write lands;
* `Stencil.Frames.Made.scoped` — **frames behave as one scoped map**.
-/

import Stencil.Frame
import Stencil.Proofs.Named

set_option autoImplicit false

namespace Stencil.Frames

/-! ### Frames that are made -/

/-- Frames that are made one after the other, each inside of one that is there already or of none, and with
names set in them in between. -/
inductive Made : Frames → Prop where
  | empty : Made #[]
  | push {fs : Frames} (h : Made fs) (frame : Frame) (hnames : (frame.bindings.map Prod.fst).Nodup)
      (hparent : ∀ parent ∈ frame.parent, parent < fs.size) : Made (fs.push frame)
  | set {fs : Frames} (h : Made fs) {id : FrameId} (hid : id < fs.size) (name : String) (v : Value)
      (up : Bool) : Made (fs.set id name v up)

/-- Frames in which each name is bound once, and which lie inside of frames with smaller numbers. -/
structure Ordered (fs : Frames) : Prop where
  names : ∀ {id : FrameId} {frame : Frame}, fs[id]? = some frame → (frame.bindings.map Prod.fst).Nodup
  parent_lt : ∀ {id : FrameId} {frame : Frame}, fs[id]? = some frame → ∀ parent ∈ frame.parent, parent < id

variable {fs : Frames}

/-- A frame after a name was bound in another, or in the same one. -/
theorem getElem?_bind (fs : Frames) (id : FrameId) (name : String) (v : Value) (j : FrameId) :
    (fs.bind id name v)[j]? = if id = j then
      fs[j]?.map fun frame => { frame with bindings := frame.bindings.insert name v } else fs[j]? :=
  Array.getElem?_modify ..

theorem Ordered.push (h : fs.Ordered) {frame : Frame} (hnames : (frame.bindings.map Prod.fst).Nodup)
    (hparent : ∀ parent ∈ frame.parent, parent < fs.size) : Ordered (fs.push frame) := by
  have hcases : ∀ {id : FrameId} {f : Frame}, (fs.push frame)[id]? = some f →
      id = fs.size ∧ f = frame ∨ fs[id]? = some f := by
    intro id f hf
    rw [Array.getElem?_push] at hf
    split at hf
    · exact .inl ⟨‹_›, (Option.some.inj hf).symm⟩
    · exact .inr hf
  constructor
  · intro id f hf
    rcases hcases hf with ⟨-, rfl⟩ | hf
    · exact hnames
    · exact h.names hf
  · intro id f hf
    rcases hcases hf with ⟨rfl, rfl⟩ | hf
    · exact hparent
    · exact h.parent_lt hf

theorem Ordered.bind (h : fs.Ordered) (id : FrameId) (name : String) (v : Value) :
    Ordered (fs.bind id name v) := by
  have hcases : ∀ {j : FrameId} {f : Frame}, (fs.bind id name v)[j]? = some f → ∃ f₀, fs[j]? = some f₀ ∧
      f.parent = f₀.parent ∧ (f.bindings = f₀.bindings ∨ f.bindings = f₀.bindings.insert name v) := by
    intro j f hf
    rw [getElem?_bind] at hf
    split at hf
    · obtain ⟨f₀, hf₀, rfl⟩ := Option.map_eq_some_iff.1 hf
      exact ⟨f₀, hf₀, rfl, .inr rfl⟩
    · exact ⟨f, hf, rfl, .inl rfl⟩
  constructor
  · intro j f hf
    obtain ⟨f₀, hf₀, -, hbindings⟩ := hcases hf
    rcases hbindings with hbindings | hbindings <;> rw [hbindings]
    · exact h.names hf₀
    · exact Named.nodup_insert (h.names hf₀) name v
  · intro j f hf
    obtain ⟨f₀, hf₀, hparent, -⟩ := hcases hf
    rw [hparent]
    exact h.parent_lt hf₀

/-- What is made stays ordered. -/
theorem Made.ordered (h : fs.Made) : fs.Ordered := by
  induction h with
  | empty => exact ⟨by simp, by simp⟩
  | push _ _ hnames hparent ih => exact ih.push hnames hparent
  | set _ _ name v _ ih => exact ih.bind _ name v

/-! ### The path of a frame -/

/-- The path of a frame, at most `fuel` frames long. -/
def pathWithin (fs : Frames) : Nat → FrameId → List FrameId
  | 0, _ => []
  | fuel + 1, id =>
    match fs[id]? with
    | none => []
    | some frame => id :: (frame.parent.map (pathWithin fs fuel)).getD []

/-- A frame, the one that it lies inside of, and so on outwards. -/
def path (fs : Frames) (id : FrameId) : List FrameId := fs.pathWithin (id + 1) id

/-- The value that a frame itself binds a name to. -/
def here (fs : Frames) (name : String) (id : FrameId) : Option Value :=
  fs[id]?.bind fun frame => frame.bindings.get? name

/-- Whether a frame itself binds a name. -/
def binds (fs : Frames) (name : String) (id : FrameId) : Bool := (fs.here name id).isSome

/-- Whether frames further out keep their bindings when a name is set from a frame. -/
def isIsolated (fs : Frames) (id : FrameId) : Bool := fs[id]?.any Frame.isolated

/-- Whether a write from the first of some frames gets as far as the first one that binds the name: none
before that one is isolated. -/
def isOpen (fs : Frames) (name : String) (ids : List FrameId) : Bool :=
  (ids.takeWhile fun id => !fs.binds name id).all fun id => !fs.isIsolated id

/-- The frame that a write from a frame lands in: with `up` the nearest one on the path that binds the name, if
the write gets there, and else the frame itself. -/
def target (fs : Frames) (id : FrameId) (name : String) (up : Bool) : FrameId :=
  if up && fs.isOpen name (fs.path id) then ((fs.path id).find? (fs.binds name)).getD id else id

theorem pathWithin_succ {fuel : Nat} {id : FrameId} {frame : Frame} (hframe : fs[id]? = some frame) :
    fs.pathWithin (fuel + 1) id = id :: (frame.parent.map (fs.pathWithin fuel)).getD [] := by
  rw [pathWithin, hframe]

theorem pathWithin_none {fuel : Nat} {id : FrameId} (hframe : fs[id]? = none) :
    fs.pathWithin fuel id = [] := by
  cases fuel <;> simp [pathWithin, hframe]

/-- A path does not depend on the bound, if the bound is greater than the number of the frame. -/
theorem Ordered.pathWithin_eq (h : fs.Ordered) {fuel fuel' : Nat} {id : FrameId} (hfuel : id < fuel)
    (hfuel' : id < fuel') : fs.pathWithin fuel id = fs.pathWithin fuel' id := by
  induction fuel generalizing fuel' id with
  | zero => exact absurd hfuel (Nat.not_lt_zero _)
  | succ fuel ih =>
      cases fuel' with
      | zero => exact absurd hfuel' (Nat.not_lt_zero _)
      | succ fuel' =>
          cases hframe : fs[id]? with
          | none => rw [pathWithin_none hframe, pathWithin_none hframe]
          | some frame =>
              rw [pathWithin_succ hframe, pathWithin_succ hframe]
              cases hparent : frame.parent with
              | none => rfl
              | some parent =>
                  have hlt : parent < id := h.parent_lt hframe parent hparent
                  exact congrArg (id :: ·) (ih (Nat.lt_of_lt_of_le hlt (Nat.le_of_lt_succ hfuel))
                    (Nat.lt_of_lt_of_le hlt (Nat.le_of_lt_succ hfuel')))

/-- A path is not cut off: it goes on with that of the frame further out. -/
theorem Ordered.path_eq (h : fs.Ordered) {id : FrameId} {frame : Frame} (hframe : fs[id]? = some frame) :
    fs.path id = id :: (frame.parent.map fs.path).getD [] := by
  rw [path, pathWithin_succ hframe]
  cases hparent : frame.parent with
  | none => rfl
  | some parent =>
      have hlt : parent < id := h.parent_lt hframe parent hparent
      exact congrArg (id :: ·) (h.pathWithin_eq hlt (Nat.lt_succ_self parent))

/-! ### The three walks -/

theorem here_eq {name : String} {id : FrameId} {frame : Frame} (hframe : fs[id]? = some frame) :
    fs.here name id = frame.bindings.get? name := by
  rw [here, hframe]
  rfl

theorem lookupWithin_eq (fs : Frames) (name : String) (fuel : Nat) (id : FrameId) :
    fs.lookupWithin name fuel id = (fs.pathWithin fuel id).findSome? (fs.here name) := by
  induction fuel generalizing id with
  | zero => rfl
  | succ fuel ih =>
      cases hframe : fs[id]? with
      | none => rw [pathWithin_none hframe, lookupWithin, hframe]; rfl
      | some frame =>
          rw [pathWithin_succ hframe, lookupWithin, hframe, List.findSome?_cons, here_eq hframe]
          dsimp only
          cases frame.bindings.get? name with
          | some v => rfl
          | none =>
              cases frame.parent with
              | none => rfl
              | some parent => exact ih parent

/-- A name is looked up along the path. -/
theorem lookup_eq (fs : Frames) (id : FrameId) (name : String) :
    fs.lookup id name = (fs.path id).findSome? (fs.here name) :=
  fs.lookupWithin_eq name (id + 1) id

/-- What is visible is what is found along the path. -/
theorem Ordered.get?_flattenWithin (h : fs.Ordered) (name : String) (fuel : Nat) (id : FrameId) :
    (fs.flattenWithin fuel id).get? name = (fs.pathWithin fuel id).findSome? (fs.here name) := by
  induction fuel generalizing id with
  | zero => rfl
  | succ fuel ih =>
      cases hframe : fs[id]? with
      | none => rw [pathWithin_none hframe, flattenWithin, hframe]; rfl
      | some frame =>
          have hnames := h.names hframe
          rw [pathWithin_succ hframe, flattenWithin, hframe, List.findSome?_cons, here_eq hframe]
          dsimp only
          -- What the frame itself binds is put in last, and so counts before what is bound further out.
          cases frame.parent with
          | none =>
              dsimp only
              rw [Named.ofList, Named.get?_insertAll hnames]
              cases frame.bindings.get? name <;> rfl
          | some parent =>
              dsimp only
              rw [Named.get?_insertAll hnames, ih parent]
              cases frame.bindings.get? name <;> rfl

/-- What is visible from a frame is what is looked up there. -/
theorem Ordered.get?_flatten (h : fs.Ordered) (id : FrameId) (name : String) :
    (fs.flatten id).get? name = fs.lookup id name :=
  (h.get?_flattenWithin name (id + 1) id).trans (fs.lookup_eq id name).symm

theorem nodup_flattenWithin (fs : Frames) (fuel : Nat) (id : FrameId) :
    ((fs.flattenWithin fuel id).map Prod.fst).Nodup := by
  induction fuel generalizing id with
  | zero => exact List.nodup_nil
  | succ fuel ih =>
      rw [flattenWithin]
      split
      · exact List.nodup_nil
      · next frame _ =>
          cases frame.parent with
          | none => exact Named.nodup_insertAll (b := []) List.nodup_nil frame.bindings
          | some parent => exact Named.nodup_insertAll (ih parent) frame.bindings

/-- What is visible from a frame has distinct names. -/
theorem nodup_flatten (fs : Frames) (id : FrameId) : ((fs.flatten id).map Prod.fst).Nodup :=
  fs.nodup_flattenWithin (id + 1) id

/-- The search for a frame ends at the nearest one that binds the name, unless it is a search for a write
that does not get there. -/
theorem resolveWithin_eq (fs : Frames) (name : String) (forWrite : Bool) (fuel : Nat) (id : FrameId) :
    fs.resolveWithin name forWrite fuel id =
      if !forWrite || fs.isOpen name (fs.pathWithin fuel id) then
        (fs.pathWithin fuel id).find? (fs.binds name)
      else none := by
  induction fuel generalizing id with
  | zero => simp [resolveWithin, pathWithin]
  | succ fuel ih =>
      cases hframe : fs[id]? with
      | none => simp [pathWithin_none hframe, resolveWithin, hframe]
      | some frame =>
          have hbinds : fs.binds name id = frame.bindings.contains name :=
            congrArg Option.isSome (here_eq hframe)
          have hisolated : fs.isIsolated id = frame.isolated := by simp [isIsolated, hframe]
          rw [pathWithin_succ hframe, resolveWithin, hframe, isOpen, List.find?_cons, hbinds]
          dsimp only
          cases hhere : frame.bindings.contains name with
          | true => simp [hbinds, hhere]
          | false =>
              -- Nothing is bound here, so a write goes on from here unless the frame is isolated.
              rw [List.takeWhile_cons_of_pos (by simp [hbinds, hhere]), List.all_cons, hisolated]
              cases frame.parent with
              | none => simp
              | some parent => cases forWrite <;> cases frame.isolated <;> simp [ih parent, isOpen]

/-- The search for a frame, by the path. -/
theorem resolve_eq (fs : Frames) (id : FrameId) (name : String) (forWrite : Bool) :
    fs.resolve id name forWrite = if !forWrite || fs.isOpen name (fs.path id) then
      (fs.path id).find? (fs.binds name) else none :=
  fs.resolveWithin_eq name forWrite (id + 1) id

/-- A name is set in the frame that the write lands in. -/
theorem set_eq (fs : Frames) (id : FrameId) (name : String) (v : Value) (up : Bool) :
    fs.set id name v up = fs.bind (fs.target id name up) name v := by
  rw [set, resolve_eq, target]
  cases up <;> cases fs.isOpen name (fs.path id) <;> simp

/-! ### After a write -/

theorem pathWithin_bind (fs : Frames) (t : FrameId) (name : String) (v : Value) (fuel : Nat)
    (id : FrameId) : (fs.bind t name v).pathWithin fuel id = fs.pathWithin fuel id := by
  induction fuel generalizing id with
  | zero => rfl
  | succ fuel ih =>
      have hbind := fs.getElem?_bind t name v id
      cases hframe : fs[id]? with
      | none =>
          rw [hframe, Option.map_none, ite_self] at hbind
          rw [pathWithin_none hframe, pathWithin_none hbind]
      | some frame =>
          obtain ⟨frame', hframe', hparent⟩ :
              ∃ frame', (fs.bind t name v)[id]? = some frame' ∧ frame'.parent = frame.parent := by
            rw [hbind, hframe]
            split
            · exact ⟨_, rfl, rfl⟩
            · exact ⟨_, rfl, rfl⟩
          rw [pathWithin_succ hframe, pathWithin_succ hframe', hparent, funext ih]

/-- A write leaves every path as it is. -/
theorem path_bind (fs : Frames) (t : FrameId) (name : String) (v : Value) (id : FrameId) :
    (fs.bind t name v).path id = fs.path id :=
  fs.pathWithin_bind t name v (id + 1) id

theorem here_bind_self {t : FrameId} (ht : t < fs.size) (name : String) (v : Value) :
    (fs.bind t name v).here name t = some v := by
  rw [here, getElem?_bind, if_pos rfl, Array.getElem?_eq_getElem ht]
  exact Named.get?_insert_self ..

theorem here_bind_of_ne {t id : FrameId} {name other : String} (h : other ≠ name ∨ t ≠ id) (v : Value) :
    (fs.bind t name v).here other id = fs.here other id := by
  rw [here, here, getElem?_bind]
  split
  · next heq =>
      have hother : other ≠ name := h.resolve_right fun hne => hne heq
      cases fs[id]? with
      | none => rfl
      | some frame => exact Named.get?_insert_of_ne _ v hother
  · rfl

/-- A path starts with its frame. -/
theorem path_eq_cons {id : FrameId} (hid : id < fs.size) : ∃ rest, fs.path id = id :: rest :=
  ⟨_, pathWithin_succ (Array.getElem?_eq_getElem hid)⟩

theorem lt_size_of_mem_pathWithin {fuel : Nat} {id i : FrameId} (h : i ∈ fs.pathWithin fuel id) :
    i < fs.size := by
  induction fuel generalizing id with
  | zero => cases h
  | succ fuel ih =>
      cases hframe : fs[id]? with
      | none => simp [pathWithin_none hframe] at h
      | some frame =>
          rw [pathWithin_succ hframe] at h
          rcases List.mem_cons.1 h with rfl | h
          · exact (Array.getElem?_eq_some_iff.1 hframe).1
          · cases hparent : frame.parent with
            | none => simp [hparent] at h
            | some parent => exact ih (hparent ▸ h)

/-- A write lands on the path, and no frame before it binds the name. -/
theorem path_target {id : FrameId} (hid : id < fs.size) (name : String) (up : Bool) :
    ∃ before rest, fs.path id = before ++ fs.target id name up :: rest ∧
      ∀ i ∈ before, fs.here name i = none := by
  obtain ⟨rest, hpath⟩ := fs.path_eq_cons hid
  have hself : ∃ before more, fs.path id = before ++ id :: more ∧ ∀ i ∈ before, fs.here name i = none :=
    ⟨[], rest, hpath, fun _ hi => absurd hi List.not_mem_nil⟩
  rw [target]
  split
  · cases hnearest : (fs.path id).find? (fs.binds name) with
    | none => exact hself
    | some nearest =>
        obtain ⟨-, before, more, hsplit, hbefore⟩ := List.find?_eq_some_iff_append.1 hnearest
        exact ⟨before, more, hsplit, fun i hi => by simpa [binds] using hbefore i hi⟩
  · exact hself

theorem target_lt_size {id : FrameId} (hid : id < fs.size) (name : String) (up : Bool) :
    fs.target id name up < fs.size := by
  obtain ⟨before, rest, hpath, -⟩ := fs.path_target hid name up
  refine lt_size_of_mem_pathWithin (?_ : _ ∈ fs.path id)
  simp [hpath]

/-- What was set is found where it was set. -/
theorem lookup_set_self {id : FrameId} (hid : id < fs.size) (name : String) (v : Value) (up : Bool) :
    (fs.set id name v up).lookup id name = some v := by
  obtain ⟨before, rest, hpath, hbefore⟩ := fs.path_target hid name up
  have ht := fs.target_lt_size hid name up
  rw [set_eq, lookup_eq, path_bind, hpath, List.findSome?_append, List.findSome?_cons,
    here_bind_self ht]
  -- The frames before bound the name to nothing, and at most the one written to does now.
  cases hfirst : before.findSome? ((fs.bind (fs.target id name up) name v).here name) with
  | none => rfl
  | some w =>
      obtain ⟨i, hi, hw⟩ := List.exists_of_findSome?_eq_some hfirst
      by_cases heq : fs.target id name up = i
      · rw [← heq, here_bind_self ht] at hw
        exact hw.symm
      · rw [here_bind_of_ne (.inr heq), hbefore i hi] at hw
        cases hw

/-- Other names have the values that they had, from every frame. -/
theorem lookup_set_of_ne {name other : String} (h : other ≠ name) (id j : FrameId) (v : Value)
    (up : Bool) : (fs.set id name v up).lookup j other = fs.lookup j other := by
  have hhere : ∀ t, (fs.bind t name v).here other = fs.here other := fun t =>
    funext fun i => here_bind_of_ne (.inl h) v
  rw [set_eq, lookup_eq, lookup_eq, path_bind, hhere]

/-! ### One scoped map -/

/-- A name has no value exactly if no frame on the path binds it. -/
theorem lookup_eq_none (fs : Frames) (id : FrameId) (name : String) :
    fs.lookup id name = none ↔ ∀ i ∈ fs.path id, fs.binds name i = false := by
  rw [lookup_eq, List.findSome?_eq_none_iff]
  simp [binds]

/-- A write changes one frame: there the name is bound. -/
theorem getElem?_set_target {id : FrameId} (hid : id < fs.size) (name : String) (v : Value) (up : Bool) :
    ∃ frame, fs[fs.target id name up]? = some frame ∧ (fs.set id name v up)[fs.target id name up]? =
      some { frame with bindings := frame.bindings.insert name v } := by
  have hframe := Array.getElem?_eq_getElem (fs.target_lt_size hid name up)
  exact ⟨_, hframe, by rw [set_eq, getElem?_bind, if_pos rfl, hframe]; rfl⟩

theorem getElem?_set_of_ne {id : FrameId} {name : String} {up : Bool} {j : FrameId}
    (hj : j ≠ fs.target id name up) (v : Value) : (fs.set id name v up)[j]? = fs[j]? := by
  rw [set_eq, getElem?_bind, if_neg hj.symm]

/-- **Frames behave as one scoped map.**  What is visible from a frame is what is looked up there.  After a
write the name has the value there, every other name has the value that it had from everywhere, and the one
frame that changed is the nearest one that binds the name, if the write goes there, and else the frame itself. -/
theorem Made.scoped (h : fs.Made) {id : FrameId} (hid : id < fs.size) (name : String) :
    (fs.flatten id).get? name = fs.lookup id name ∧
      (fs.lookup id name = none ↔ ∀ i ∈ fs.path id, fs.binds name i = false) ∧
      ∀ (v : Value) (up : Bool),
        (fs.set id name v up).lookup id name = some v ∧
        (∀ j other, other ≠ name → (fs.set id name v up).lookup j other = fs.lookup j other) ∧
        (∃ frame, fs[fs.target id name up]? = some frame ∧
          (fs.set id name v up)[fs.target id name up]? =
            some { frame with bindings := frame.bindings.insert name v }) ∧
        ∀ j, j ≠ fs.target id name up → (fs.set id name v up)[j]? = fs[j]? := by
  refine ⟨h.ordered.get?_flatten id name, fs.lookup_eq_none id name, fun v up => ⟨?_, ?_, ?_, ?_⟩⟩
  · exact lookup_set_self hid name v up
  · exact fun j other hother => lookup_set_of_ne hother id j v up
  · exact getElem?_set_target hid name v up
  · exact fun j hj => getElem?_set_of_ne hj v

/-- Three frames, each inside of the one before: the outermost binds `x` and `y`, the isolated one in the
middle binds `y`, and the innermost binds nothing. -/
def threeDeep : Frames :=
  #[⟨[("x", .int 1), ("y", .int 2)], none, false, true⟩, ⟨[("y", .int 3)], some 0, true, false⟩,
    inside 1 false]

/-- From the innermost of three frames `y` is set in the isolated one, which binds it, and `x` in the innermost
frame itself, as the isolated one keeps the write from the outermost. -/
theorem Made.scoped_threeDeep :
    threeDeep.target 2 "y" true = 1 ∧ threeDeep.target 2 "x" true = 2 ∧
      (threeDeep.set 2 "y" (.int 4) true).lookup 2 "y" = some (.int 4) ∧
      (threeDeep.set 2 "y" (.int 4) true)[2]? = threeDeep[2]? ∧
      (threeDeep.set 2 "x" (.int 5) true).lookup 2 "x" = some (.int 5) ∧
      (threeDeep.set 2 "x" (.int 5) true)[0]? = threeDeep[0]? := by
  have hmade : threeDeep.Made := by
    refine .push (.push (.push .empty _ ?_ ?_) _ ?_ ?_) _ ?_ ?_
    all_goals simp [inside]
  have hy : threeDeep.target 2 "y" true = 1 := by decide
  have hx : threeDeep.target 2 "x" true = 2 := by decide
  obtain ⟨-, -, hsetY⟩ := hmade.scoped (by decide : 2 < threeDeep.size) "y"
  obtain ⟨-, -, hsetX⟩ := hmade.scoped (by decide : 2 < threeDeep.size) "x"
  obtain ⟨hlookupY, -, -, hothersY⟩ := hsetY (.int 4) true
  obtain ⟨hlookupX, -, -, hothersX⟩ := hsetX (.int 5) true
  exact ⟨hy, hx, hlookupY, hothersY 2 (by rw [hy]; decide), hlookupX, hothersX 0 (by rw [hx]; decide)⟩

end Stencil.Frames
