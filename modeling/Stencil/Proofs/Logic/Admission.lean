/-
**What the operators make of admitted values.**

No operator makes a safe text or a macro of its own: what it gives holds only what its operands
hold.  So every operator takes admitted values to admitted values, and its errors are of the
ordinary kind, which every policy allows.

Main definitions:

* `Stencil.Cause.isOrdinary`, `Stencil.Policy.Tolerant` — the errors that an operator may end with;
* `Stencil.Cause.isMisshapen` — the errors of trees that are not well shaped.

Main results:

* `Stencil.Policy.Answers.strictOperator`, `Stencil.Policy.Answers.slice`,
  `Stencil.Value.Admitted.member` — operators, slices and members;
* `Stencil.Policy.Sound.lookup`, `Stencil.Policy.Sound.flatten` — what a frame sees;
* `Stencil.Render.loopBindings_admitted` — what a loop binds.
-/

import Stencil.Proofs.Logic.Policy

set_option autoImplicit false

namespace Stencil

/-! ### Errors -/

/-- Whether an error says that a part of a tree cannot be there for what it is. -/
def Cause.isMisshapen : Cause → Bool
  | .setTarget | .notPair | .notComparison | .notCaller | .misplacedPart _
  | .statementAsExpression _ => true
  | _ => false

/-- Whether an error may arise whatever is watched for. -/
def Cause.isOrdinary : Cause → Bool
  | .superOutsideBlock _ | .host _ _ => false
  | c => !c.isMisshapen

/-- A policy that allows the ordinary errors. -/
def Policy.Tolerant (π : Policy) : Prop := ∀ c : Cause, c.isOrdinary = true → π.cause c

variable {π : Policy}

namespace Policy.Answers

theorem plain {v : Value} (h : v.isPlain = true) : π.Answers (.ok v) :=
  Value.Admitted.plain h

theorem error (hπ : π.Tolerant) {c : Cause} (h : c.isOrdinary = true) :
    π.Answers (.error (.ofCause c)) :=
  hπ c h

theorem onFloats (hπ : π.Tolerant) (op : String) {f : Float → Float → Value}
    (hf : ∀ x y, (f x y).isPlain = true) (a b : Value) : π.Answers (Value.onFloats op f a b) := by
  unfold Value.onFloats Value.floats
  split
  · exact plain (hf _ _)
  · exact error hπ rfl

theorem onNumbers (hπ : π.Tolerant) (op : String) (exact' : Int → Int → Int)
    (f : Float → Float → Float) (a b : Value) :
    π.Answers (Value.onNumbers op exact' f a b) := by
  unfold Value.onNumbers
  split
  · split
    · exact plain rfl
    · exact onFloats hπ op (fun _ _ => rfl) _ _
  · exact onFloats hπ op (fun _ _ => rfl) _ _

theorem add (hπ : π.Tolerant) {a b : Value} (ha : a.Admitted π) (hb : b.Admitted π) :
    π.Answers (a.add b) := by
  unfold Value.add
  split
  · exact plain rfl
  · split
    · refine Value.Admitted.array fun v hv => ?_
      rcases List.mem_append.1 hv with hv | hv
      · exact ha.items v hv
      · exact hb.items v hv
    · exact onNumbers hπ _ _ _ _ _

theorem floorDiv (hπ : π.Tolerant) (a b : Value) : π.Answers (a.floorDiv b) := by
  have hfloor : ∀ x y : Float, (Value.floorValue (x / y)).isPlain = true := by
    intro x y
    unfold Value.floorValue
    split
    · split <;> rfl
    · rfl
  unfold Value.floorDiv
  split
  · split
    · exact error hπ rfl
    · split
      · exact plain rfl
      · exact error hπ rfl
  · exact onFloats hπ _ hfloor _ _

theorem rem (hπ : π.Tolerant) (a b : Value) : π.Answers (a.rem b) := by
  unfold Value.rem
  split
  · split
    · exact plain rfl
    · split
      · exact plain rfl
      · exact onFloats hπ _ (fun _ _ => rfl) _ _
  · exact onFloats hπ _ (fun _ _ => rfl) _ _

theorem pow (hπ : π.Tolerant) (a b : Value) : π.Answers (a.pow b) := by
  unfold Value.pow
  split
  · split
    · split
      · exact plain rfl
      · exact onFloats hπ _ (fun _ _ => rfl) _ _
    · exact onFloats hπ _ (fun _ _ => rfl) _ _
  · exact onFloats hπ _ (fun _ _ => rfl) _ _

theorem within (hπ : π.Tolerant) (a b : Value) :
    π.Answers (Value.bool <$> Value.contains b a) := by
  unfold Value.contains
  split <;> first | exact plain rfl | exact error hπ rfl

/-- An operator between two evaluated operands gives an admitted value. -/
theorem strictOperator (hπ : π.Tolerant) (op : BinaryOp) {a b : Value} (ha : a.Admitted π)
    (hb : b.Admitted π) : π.Answers (Render.strictOperator op a b) := by
  cases op with
  | add => exact add hπ ha hb
  | sub => exact onNumbers hπ _ _ _ _ _
  | mul => exact onNumbers hπ _ _ _ _ _
  | div => exact onFloats hπ "/" (f := fun x y => .float (x / y)) (fun _ _ => rfl) a b
  | floorDiv => exact floorDiv hπ a b
  | mod => exact rem hπ a b
  | pow => exact pow hπ a b
  | concat => exact plain rfl
  | within => exact within hπ a b
  | or | and | test => exact hb

theorem unaryOperator (hπ : π.Tolerant) (op : UnaryOp) {v : Value} (hv : v.Admitted π) :
    π.Answers (Render.unaryOperator op v) := by
  cases op with
  | not => exact plain rfl
  | neg =>
      change π.Answers v.neg
      unfold Value.neg
      split
      · split <;> exact plain rfl
      · exact onFloats hπ "unary -" (f := fun x _ => .float (-x)) (fun _ _ => rfl) v (.int 0)
  | pos =>
      change π.Answers v.plus
      unfold Value.plus
      split
      · exact hv
      · exact hv
      · exact onFloats hπ "unary +" (f := fun x _ => .float x) (fun _ _ => rfl) v (.int 0)

theorem literal (hπ : π.Tolerant) (value : Literal) : π.Answers (Render.literal value) := by
  cases value with
  | pattern body flags =>
      delta Render.literal
      dsimp only
      split
      · exact plain rfl
      · exact error hπ rfl
  | none | bool _ | int _ | float _ | string _ => exact plain rfl

/-- A slice holds only what it was taken from. -/
theorem slice (hπ : π.Tolerant) {v : Value} (hv : v.Admitted π) (start stop step : Option Int) :
    π.Answers (v.slice start stop step) := by
  unfold Value.slice
  by_cases hstep : step.getD 1 = 0
  · simp only [hstep, if_true]
    exact error hπ rfl
  · simp only [hstep, if_false]
    split
    · rename_i items
      refine Value.Admitted.array fun w hw => ?_
      obtain ⟨i, _, hi⟩ := List.mem_filterMap.1 hw
      have hmem := Array.mem_of_getElem? hi
      exact hv.items w (by simpa using hmem)
    · exact plain rfl
    · exact plain rfl
    · exact plain rfl
    · exact plain rfl
    · exact error hπ rfl

end Policy.Answers

/-! ### Members -/

/-- A member of a value is held by it. -/
theorem Value.Admitted.member {v key : Value} (hv : v.Admitted π) : (v.member key).Admitted π := by
  have hlength : ∀ v key : Value, (Value.lengthMember v key).Admitted π := by
    intro v key
    unfold Value.lengthMember
    split
    · split <;> exact .plain rfl
    · exact .plain rfl
  unfold Value.member
  split
  · unfold Value.memberOfMap
    split
    · exact hv.members.getD _
    · exact hv.members.getD _
    · exact hv.members.getD _
    · exact .plain rfl
  · rename_i items i
    cases hi : (Value.index? items.length i).bind (items[·]?) with
    | none => exact .plain rfl
    | some w =>
        obtain ⟨j, _, hj⟩ := Option.bind_eq_some_iff.1 hi
        exact hv.items w (List.mem_of_getElem? hj)
  · split <;> exact .plain rfl
  · split <;> exact .plain rfl
  · exact hlength _ _
  · exact hlength _ _
  · exact hlength _ _
  · exact .plain rfl

/-! ### Frames and contexts -/

namespace Policy.Sound

variable {s : State}

theorem frame (h : π.Sound s) {id : FrameId} {frame : Frame} (hid : s.frames[id]? = some frame) :
    Bindings.Admitted π frame.bindings :=
  h.frames frame (Array.mem_of_getElem? hid)

/-- What a frame sees under a name is admitted. -/
theorem lookup (h : π.Sound s) {id : FrameId} {name : String} {v : Value}
    (hv : s.frames.lookup id name = some v) : v.Admitted π := by
  have main : ∀ fuel id, s.frames.lookupWithin name fuel id = some v → v.Admitted π := by
    intro fuel
    induction fuel with
    | zero =>
        intro id hv
        simp [Frames.lookupWithin] at hv
    | succ fuel ih =>
        intro id hv
        rw [Frames.lookupWithin] at hv
        split at hv
        · simp at hv
        · rename_i frame hframe
          split at hv
          · rename_i w hw
            obtain rfl : w = v := by simpa using hv
            exact (h.frame hframe).get? hw
          · split at hv
            · exact ih _ hv
            · simp at hv
  exact main _ id hv

/-- Everything that a frame sees is admitted. -/
theorem flatten (h : π.Sound s) (id : FrameId) : Bindings.Admitted π (s.frames.flatten id) := by
  have main : ∀ fuel id, Bindings.Admitted π (s.frames.flattenWithin fuel id) := by
    intro fuel
    induction fuel with
    | zero =>
        intro id
        exact .nil
    | succ fuel ih =>
        intro id
        rw [Frames.flattenWithin]
        split
        · exact .nil
        · rename_i frame hframe
          split
          · exact (ih _).insertAll (h.frame hframe)
          · exact (h.frame hframe).ofList
  exact main _ id

/-- A context that is looked up, be it there or not. -/
theorem context (h : π.Sound s) (id : ContextId) :
    Bindings.Admitted π ((s.contexts[id]?).getD default).globals ∧
      Bindings.Admitted π ((s.contexts[id]?).getD default).bindings := by
  cases hc : s.contexts[id]? with
  | none => exact ⟨.nil, .nil⟩
  | some c =>
      have hmem := Array.mem_of_getElem? hc
      exact ⟨h.globals c hmem, h.bindings c hmem⟩

theorem contextLookup (h : π.Sound s) (id : ContextId) (name : String) :
    (((s.contexts[id]?).getD default).lookup name).Admitted π := by
  obtain ⟨hglobals, hbindings⟩ := h.context id
  unfold Context.lookup
  cases hb : Named.get? ((s.contexts[id]?).getD default).bindings name with
  | some v => simpa [hb] using hbindings.get? hb
  | none => simpa [hb] using hglobals.getD name

theorem exports (h : π.Sound s) (id : ContextId) :
    Bindings.Admitted π ((s.contexts[id]?).getD default).exports := by
  intro m hm
  obtain ⟨name, _, rfl⟩ := List.mem_map.1 hm
  exact (h.context id).2.getD name

/-- The definitions of blocks that a context holds. -/
theorem entries (h : π.Sound s) (id : ContextId) (name : String) :
    ∀ block ∈ ((s.contexts[id]?).getD default).entries name, π.block block := by
  intro block hblock
  unfold Context.entries at hblock
  cases hc : s.contexts[id]? with
  | none => simp [hc, Named.get?, default, instInhabitedContext.default] at hblock
  | some c =>
      rw [hc, Option.getD_some] at hblock
      cases hentry : Named.get? c.blocks name with
      | none => simp [hentry] at hblock
      | some blocks =>
          rw [hentry] at hblock
          exact h.blocks c (Array.mem_of_getElem? hc) _ (Named.mem_of_get? hentry) block hblock

end Policy.Sound

end Stencil
