/-
**Expressions in two runs.**

Main results:

* `Stencil.Render.binary_mirrored`, `Stencil.Render.choice_mirrored` — operators and choices;
* `Stencil.Render.evaluate_mirrored` — **expressions of one kind** with related parts.
-/

import Stencil.Proofs.Mirror.Calls

set_option autoImplicit false

namespace Stencil.Render

variable {M : Mirror} {T : TemplateId → Prop} {env env' : Environment} {ev ev' : Evaluator}
  {w : M.World}
  {scope scope' : Scope} {n n' : Node} {id id' : FrameId}

open Mirror

/-! ### Operators -/

/-- An operator evaluates the right operand only if the left one does not decide. -/
theorem binary_mirrored (hM : M.Serves env env' T) (hev : Evaluator.Mirrored M ev ev' T)
    (hscope : Scope.Alike M.node scope scope') (op : BinaryOp) {left left' right right' : Node}
    (hleft : M.node left left') (hright : M.node right right') (hid : M.frame w id id') :
    M.Acts w (binary env ev scope op left right id) (binary env' ev' scope' op left' right' id')
      M.Same := by
  have hstrict : ∀ op, M.Acts w
      (do
        let a ← ev.eval scope left id
        let b ← ev.eval scope right id
        Action.ofExcept (strictOperator op a b))
      (do
        let a ← ev'.eval scope' left' id'
        let b ← ev'.eval scope' right' id'
        Action.ofExcept (strictOperator op a b)) M.Same := fun op => by
    refine (hev.eval hscope hleft hid).bind fun u a a' hu ha => ?_
    refine (hev.eval hscope hright (M.frame_le hu hid)).bind fun _ b b' _ hb => ?_
    exact .ofAnswers (ha.strictOperator op hb)
  cases op with
  | or =>
      refine (hev.eval hscope hleft hid).bind fun u a a' hu ha => ?_
      rw [ha.isTruthy]
      split
      · exact .pure fun _ _ => ha
      · exact hev.eval hscope hright (M.frame_le hu hid)
  | and =>
      refine (hev.eval hscope hleft hid).bind fun u a a' hu ha => ?_
      rw [ha.isTruthy]
      split
      · exact hev.eval hscope hright (M.frame_le hu hid)
      · exact .pure fun _ _ => ha
  | test => exact applyTest_mirrored hM hev hscope hleft hright hid
  | _ => exact hstrict _

theorem comparisons_mirrored (hev : Evaluator.Mirrored M ev ev' T)
    (hscope : Scope.Alike M.node scope scope') (hid : M.frame w id id') {v v' : Value}
    (hv : v.Alike M.node v') {ns ns' : List Node} (hns : List.Forall₂ M.node ns ns') :
    M.Acts w (comparisons ev scope id v ns) (comparisons ev' scope' id' v' ns') M.Same := by
  have hfail : ∀ (m : Node) (rest : List Node), m.isSeen = false → ∀ v : Value,
      comparisons ev scope id v (m :: rest) = Action.fail .notComparison ∧
        comparisons ev' scope' id' v (m :: rest) = Action.fail .notComparison := fun m rest hm v => by
    cases m <;> first | exact ⟨rfl, rfl⟩ | cases hm
  induction hns generalizing w v v' with
  | nil => exact .pure fun _ _ => hv
  | cons hn _ ih =>
      rcases M.faithful _ _ hn with hlike | ⟨hunseen, hunseen'⟩
      · cases hlike with
        | operand _ ha =>
            refine (hev.eval hscope ha hid).bind fun u b b' hu hb => ?_
            rw [hv.holds _ hb]
            exact ih (M.frame_le hu hid) (.flat rfl)
        | _ => exact .fail _
      · rw [(hfail _ _ hunseen _).1, (hfail _ _ hunseen' _).2]
        exact .fail _

/-- A choice evaluates the branch that the condition selects. -/
theorem choice_mirrored (hev : Evaluator.Mirrored M ev ev' T)
    (hscope : Scope.Alike M.node scope scope') (hid : M.frame w id id')
    {condition condition' body body' : Node} {otherwise otherwise' : Option Node}
    (hcondition : M.node condition condition') (hbody : M.node body body')
    (hotherwise : Option.Rel M.node otherwise otherwise') {p p' : Position} :
    M.Acts w (evaluate env ev scope (.choice p condition body otherwise) id)
      (evaluate env' ev' scope' (.choice p' condition' body' otherwise') id') M.Same := by
  refine (hev.eval hscope hcondition hid).bind fun u v v' hu hv => ?_
  rw [hv.isTruthy]
  split
  · exact hev.eval hscope hbody (M.frame_le hu hid)
  · cases hotherwise with
    | none => exact .pure fun _ _ => .flat rfl
    | some hn => exact hev.eval hscope hn (M.frame_le hu hid)

/-! ### Maps, members and slices -/

theorem pairKey_mirrored (hev : Evaluator.Mirrored M ev ev' T)
    (hscope : Scope.Alike M.node scope scope') (hid : M.frame w id id') (hn : M.node n n') :
    M.Acts w (pairKey ev scope id n) (pairKey ev' scope' id' n') M.Equal := by
  unfold pairKey
  rw [M.faithful.asSymbol? hn]
  split
  · exact .pure fun _ _ => rfl
  · exact (hev.eval hscope hn hid).bind fun _ _ _ _ hv => .pure fun _ _ => hv.text

theorem pairs_mirrored (hev : Evaluator.Mirrored M ev ev' T)
    (hscope : Scope.Alike M.node scope scope') (hid : M.frame w id id') {members members' : Bindings}
    (hmembers : Bindings.Alike M.node members members') {ns ns' : List Node}
    (hns : List.Forall₂ M.node ns ns') :
    M.Acts w (pairs ev scope id members ns) (pairs ev' scope' id' members' ns')
      fun _ => Bindings.Alike M.node := by
  have hfail : ∀ (m : Node) (rest : List Node), m.isSeen = false → ∀ members : Bindings,
      pairs ev scope id members (m :: rest) = Action.fail .notPair ∧
        pairs ev' scope' id' members (m :: rest) = Action.fail .notPair := fun m rest hm _ => by
    cases m <;> first | exact ⟨rfl, rfl⟩ | cases hm
  induction hns generalizing w members members' with
  | nil => exact .pure fun _ _ => hmembers
  | cons hn _ ih =>
      rcases M.faithful _ _ hn with hlike | ⟨hunseen, hunseen'⟩
      · cases hlike with
        | pair _ ha hb =>
            refine (pairKey_mirrored hev hscope hid ha).bind fun u key key' hu hkey => ?_
            obtain rfl : key' = key := hkey
            refine (hev.eval hscope hb (M.frame_le hu hid)).bind fun t v v' ht hv => ?_
            exact ih (M.frame_le (M.trans hu ht) hid) (hmembers.insert hv _)
        | _ => exact .fail _
      · rw [(hfail _ _ hunseen _).1, (hfail _ _ hunseen' _).2]
        exact .fail _

theorem sliceIndex_mirrored (hev : Evaluator.Mirrored M ev ev' T)
    (hscope : Scope.Alike M.node scope scope') (hid : M.frame w id id') {o o' : Option Node}
    (ho : Option.Rel M.node o o') :
    M.Acts w (sliceIndex ev scope o id) (sliceIndex ev' scope' o' id') M.Equal := by
  cases ho with
  | none => exact .pure fun _ _ => rfl
  | some hn =>
      refine (hev.eval hscope hn hid).bind fun _ v v' _ hv => ?_
      rw [hv.isNullish, hv.asInt?, hv.typeName]
      split
      · exact .pure fun _ _ => rfl
      · split
        · exact .pure fun _ _ => rfl
        · exact .fail _

/-- A key that is not looked into is evaluated. -/
theorem lookup_of_unseen (hn : n.isSeen = false) (target : Node) :
    lookup ev scope target n id = do
      let v ← ev.eval scope target id
      return v.member (← ev.eval scope n id) := by
  cases n <;> first | rfl | cases hn

/-- A member or a slice of a value. -/
theorem lookup_mirrored (hev : Evaluator.Mirrored M ev ev' T)
    (hscope : Scope.Alike M.node scope scope') (hid : M.frame w id id') {target target' : Node}
    (htarget : M.node target target') (hn : M.node n n') :
    M.Acts w (lookup ev scope target n id) (lookup ev' scope' target' n' id') M.Same := by
  have hmember : M.Acts w
      (do
        let v ← ev.eval scope target id
        return v.member (← ev.eval scope n id))
      (do
        let v ← ev'.eval scope' target' id'
        return v.member (← ev'.eval scope' n' id')) M.Same := by
    refine (hev.eval hscope htarget hid).bind fun u v v' hu hv => ?_
    exact (hev.eval hscope hn (M.frame_le hu hid)).bind fun _ _ _ _ hkey =>
      .pure fun _ _ => hv.member hkey
  rcases M.faithful _ _ hn with hlike | ⟨hunseen, hunseen'⟩
  · cases hlike with
    | slice _ ha hb hc =>
        refine (hev.eval hscope htarget hid).bind fun u v v' hu hv => ?_
        have hid := M.frame_le hu hid
        refine (sliceIndex_mirrored hev hscope hid ha).bind fun t a a' ht ha => ?_
        have hid := M.frame_le ht hid
        refine (sliceIndex_mirrored hev hscope hid hb).bind fun r b b' hr hb => ?_
        refine (sliceIndex_mirrored hev hscope (M.frame_le hr hid) hc).bind fun _ c c' _ hc => ?_
        obtain rfl : a' = a := ha
        obtain rfl : b' = b := hb
        obtain rfl : c' = c := hc
        exact .ofAnswers (hv.slice _ _ _)
    | _ => exact hmember
  · rw [lookup_of_unseen hunseen, lookup_of_unseen hunseen']
    exact hmember

/-! ### Expressions -/

/-- The body of a call keeps what is visible where it stands. -/
theorem caller_mirrored (hM : M.Store T) (hscope : Scope.Alike M.node scope scope')
    (hid : M.frame w id id') (role : MacroRole) (name : String) (hn : M.node n n')
    {body body' : Node} (hbody : M.node body body') :
    M.Acts w (caller scope role name n body id) (caller scope' role name n' body' id')
      M.Same := by
  unfold caller
  refine (declare_mirrored hM hscope role name hn hbody).bind fun u d d' hu hd => ?_
  refine (Scope.bindings_mirrored hM hscope).bind fun t b b' ht hb => ?_
  refine (hM.flatten (M.frame_le (M.trans hu ht) hid)).bind fun _ c c' _ hc => ?_
  exact .pure fun _ _ => .ofCallable hd (.some (hb.insertAll hc)) .none

/-- The value of a literal. -/
theorem literal_given (R : Node → Node → Prop) (l : Literal) :
    Value.Given R (literal l) (literal l) := by
  refine Value.FlatAnswer.given ?_ rfl
  cases l with
  | pattern body flags =>
      delta literal
      dsimp only
      split
      · exact .ok rfl
      · exact .error _
  | none | bool | int | float | string => exact .ok rfl

/-- Expressions of one kind with related parts. -/
theorem evaluate_mirrored (hM : M.Serves env env' T) (hev : Evaluator.Mirrored M ev ev' T)
    (hscope : Scope.Alike M.node scope scope') (hid : M.frame w id id') (hn : M.node n n')
    (hlike : n.Alike M.place M.node n') :
    M.Acts w (evaluate env ev scope n id) (evaluate env' ev' scope' n' id') M.Same := by
  have hstatement : ∀ c : Cause, M.Acts (α := Value) (β := Value) w (Action.fail c)
      (Action.fail c) M.Same := fun c => .fail c
  cases hlike with
  | literal => exact .ofAnswers (literal_given _ _)
  | symbol => exact hM.lookup _ hscope hid
  | @group k _ _ _ _ _ hns =>
      cases k with
      | array =>
          refine (Acts.sequence hns fun c c' hc => hev.eval hscope hc hid).bind
            fun _ vs vs' _ hvs => .pure fun _ _ => .ofItems hvs
      | dict | keywords =>
          exact (pairs_mirrored hev hscope hid .nil hns).bind fun _ _ _ _ hb =>
            .pure fun _ _ => .ofMembers hb
      | root | sequence | output => exact hstatement _
  | capture _ ha =>
      refine (hev.exec hscope ha hid).bind fun _ out out' _ hout => .pure fun _ _ => ?_
      obtain rfl : out' = out := hout
      exact .flat rfl
  | binary _ ha hb => exact binary_mirrored hM hev hscope _ ha hb hid
  | unary _ ha => exact (hev.eval hscope ha hid).bind fun _ _ _ _ hv => .ofAnswers (hv.unaryOperator _)
  | compare _ ha hns =>
      refine (hev.eval hscope ha hid).bind fun u v v' hu hv => ?_
      exact comparisons_mirrored hev hscope (M.frame_le hu hid) hv hns
  | operand _ ha => exact hev.eval hscope ha hid
  | choice _ ha hb hc => exact choice_mirrored hev hscope hid ha hb hc
  | lookup _ ha hb => exact lookup_mirrored hev hscope hid ha hb
  | call hp ha hb =>
      refine (hev.eval hscope ha hid).bind fun u v v' hu hv => ?_
      refine (arguments_mirrored hev hscope hb (M.frame_le hu hid)).bind fun _ args args' _ hargs => ?_
      exact call_mirrored hM.toStore hev hscope ha hv hargs
  | filter _ ha => exact applyFilter_mirrored hM hev hscope _ ha hid
  | tagCall _ ha hns => exact callTag_mirrored hM hev hscope _ ha hns hid
  | @definition _ _ r _ _ _ _ _ _ ha hb =>
      cases r with
      | caller => exact caller_mirrored hM.toStore hscope hid _ _ ha hb
      | named => exact hstatement _
  | pair | slice => exact hstatement _
  | text | branch | loop | assign | block | overridden | extend | embed | importAll
  | importNames | bind => exact hstatement _

end Stencil.Render
