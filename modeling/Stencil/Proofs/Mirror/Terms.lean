/-
**Expressions bind nothing where they are evaluated.**

An expression reads the frame that it is evaluated in.  It may call macros, include templates by way of
them, and run all the code that the host runs for filters; but all this runs in other frames.  So what
a frame binds is the same after an expression was evaluated in it.

Main definitions:

* `Stencil.Action.Spares` — an action that leaves a frame alone;
* `Stencil.Evaluator.SparesOwn` — an evaluator whose expressions leave the frame alone that they are
  evaluated in.

Main results:

* `Stencil.Render.evaluate_spares` — one level of nesting;
* `Stencil.Environment.LeavesFrames.sparesOwn` — **expressions bind nothing where they are evaluated**.
-/

import Stencil.Proofs.Mirror.Sparing
import Stencil.Proofs.Syntax.Terms

set_option autoImplicit false

namespace Stencil

open Likeness

variable {env : Environment} {ev : Evaluator} {scope : Scope} {own : FrameId} {b : Bindings}
  {w : Set FrameId} {n : Node} {α β : Type}

/-! ### Actions that leave a frame alone -/

/-- An action that leaves a frame alone. -/
abbrev Action.Spares (own : FrameId) (b : Bindings) (w : Set FrameId) (x : Action α) : Prop :=
  (spared own b).Acts w x x fun _ a a' => a' = a

namespace Action.Spares

theorem pure (a : α) : Spares own b w (Pure.pure a) := Mirror.Acts.pure fun _ _ => rfl

theorem fail (c : Cause) : Spares (α := α) own b w (Action.fail c) := Mirror.Acts.fail c

theorem ofExcept (answer : Except TemplateError α) : Spares own b w (Action.ofExcept answer) :=
  Mirror.Acts.ofExcept fun _ _ => .of_eq (fun _ => rfl) fun _ => rfl

theorem of_keepsFrames {x : Action α} (h : x.KeepsFrames) : x.Spares own b w :=
  sparing_acts h fun _ _ _ => rfl

theorem bind {x : Action α} {f : α → Action β} (hx : x.Spares own b w)
    (hf : ∀ v a, w ⊆ v → (f a).Spares own b v) : (x >>= f).Spares own b w := by
  refine Mirror.Acts.bind hx fun v a a' hv ha => ?_
  obtain rfl : a' = a := ha
  exact hf v a' hv

/-- A value that is compared tree by tree. -/
theorem of_same {x : Action Value} (h : (spared own b).Acts w x x (spared own b).Same) :
    x.Spares own b w :=
  fun v s s' hv hs => (h v s s' hv hs).mono fun hsame => hsame.eq fun _ _ h => h.symm

theorem sequence {ι : Type} {f : ι → Action α} {cs : List ι} (h : ∀ c ∈ cs, (f c).Spares own b w) :
    (Action.sequence (cs.map f)).Spares own b w := by
  have hcs : List.Forall₂ (fun c c' => c' = c ∧ c ∈ cs) cs cs :=
    List.forall₂_same.2 fun c hc => ⟨rfl, hc⟩
  have hall := Mirror.Acts.sequence (S := fun a a' : α => a' = a) hcs fun c c' hc => by
    obtain ⟨rfl, hc⟩ := hc
    exact h c' hc
  exact fun v s s' hv hs => (hall v s s' hv hs).mono fun h => eq_of_forall₂ (fun _ _ h => h) h

end Action.Spares

open Stencil.Action

/-- An evaluator whose expressions leave the frame alone that they are evaluated in. -/
def Evaluator.SparesOwn (own : FrameId) (b : Bindings) (ev : Evaluator) : Prop :=
  ∀ w scope n, n.Term → (ev.eval scope n own).Spares own b w

/-- The parts of an expression are expressions; that something is one is seen by looking. -/
theorem Node.Term.part {c : Node} (h : n.Term) (hn : n.isApart = false := by rfl)
    (hc : c ∈ n.children := by simp [Node.children, Node.fields, Node.Field.nodes]) : c.Term :=
  h.child hn hc

/-- The members of a list in an expression are expressions. -/
theorem Node.Term.member (h : n.Term) {m : Node} (hm : m ∈ n.members) : m.Term := by
  cases n with
  | group kind p ns =>
      exact h.child rfl (by simpa [children, fields, Field.nodes, members] using hm)
  | _ => simp [members] at hm

namespace Render

/-! ### Parts of expressions -/

variable (hev : ev.SparesOwn own b)

include hev

theorem argumentsFrom_spares {ns : List Node} (hns : ∀ n ∈ ns, n.Term) (args : CallArgs) :
    (argumentsFrom ev scope own args ns).Spares own b w := by
  induction ns generalizing w args with
  | nil => exact .pure _
  | cons n rest ih =>
      have hrest := fun v args => ih (w := v) (fun m hm => hns m (List.mem_cons_of_mem _ hm)) args
      refine (hev w scope n (hns n List.mem_cons_self)).bind fun v a _ => ?_
      split
      · exact hrest v _
      · exact hrest v _

theorem arguments_spares (hn : n.Term) : (arguments ev scope n own).Spares own b w :=
  argumentsFrom_spares hev (fun _ hm => hn.member hm) _

theorem comparisons_spares {ns : List Node} (hns : ∀ n ∈ ns, n.Term) (a : Value) :
    (comparisons ev scope own a ns).Spares own b w := by
  induction ns generalizing w a with
  | nil => exact .pure _
  | cons n rest ih =>
      have hn := hns n List.mem_cons_self
      cases n with
      | operand p op m =>
          exact (hev w scope m hn.part).bind fun v c _ =>
            ih (fun n hn => hns n (List.mem_cons_of_mem _ hn)) _
      | _ => exact .fail _

theorem pairKey_spares (hn : n.Term) : (pairKey ev scope own n).Spares own b w := by
  unfold pairKey
  split
  · exact .pure _
  · exact (hev w scope n hn).bind fun _ _ _ => .pure _

theorem pairs_spares {ns : List Node} (hns : ∀ n ∈ ns, n.Term) (members : Bindings) :
    (pairs ev scope own members ns).Spares own b w := by
  induction ns generalizing w members with
  | nil => exact .pure _
  | cons n rest ih =>
      have hn := hns n List.mem_cons_self
      cases n with
      | pair p key value =>
          refine (pairKey_spares hev hn.part).bind fun v name _ => ?_
          refine (hev v scope value hn.part).bind fun u a _ => ?_
          exact ih (fun n hn => hns n (List.mem_cons_of_mem _ hn)) _
      | _ => exact .fail _

theorem sliceIndex_spares {o : Option Node} (ho : ∀ n ∈ o, n.Term) :
    (sliceIndex ev scope o own).Spares own b w := by
  cases o with
  | none => exact .pure _
  | some n =>
      refine (hev w scope n (ho n rfl)).bind fun v a _ => ?_
      split
      · exact .pure _
      · split
        · exact .pure _
        · exact .fail _

theorem lookup_spares {target : Node} (htarget : target.Term) (hn : n.Term) :
    (lookup ev scope target n own).Spares own b w := by
  refine (hev w scope target htarget).bind fun v a _ => ?_
  have hmember : ∀ m : Node, m.Term →
      (do return a.member (← ev.eval scope m own) : Action Value).Spares own b v :=
    fun m hm => (hev v scope m hm).bind fun _ _ _ => .pure _
  cases n with
  | slice p start stop step =>
      have hparts : ∀ m ∈ start.toList ++ (stop.toList ++ step.toList), m.Term := fun m hm =>
        hn.child rfl (by simpa [Node.children, Node.fields, Node.Field.nodes] using hm)
      refine (sliceIndex_spares hev fun m hm => hparts m (by simp_all)).bind fun u i _ => ?_
      refine (sliceIndex_spares hev fun m hm => hparts m (by simp_all)).bind fun u j _ => ?_
      exact (sliceIndex_spares hev fun m hm => hparts m (by simp_all)).bind fun u k _ => .ofExcept _
  | _ => exact hmember _ hn

theorem testCall_spares (hn : n.Term) : (testCall ev scope n own).Spares own b w := by
  unfold testCall
  split
  · exact .pure _
  · exact .pure _
  · exact (arguments_spares hev hn.part).bind fun _ _ _ => .pure _
  · exact .fail _

theorem binary_spares {op : BinaryOp} {left right : Node} (hleft : left.Term) (hright : right.Term) :
    (binary env ev scope op left right own).Spares own b w := by
  have hstrict : (do
      let a ← ev.eval scope left own
      let c ← ev.eval scope right own
      Action.ofExcept (strictOperator op a c)).Spares own b w :=
    (hev w scope left hleft).bind fun v a _ => (hev v scope right hright).bind fun _ c _ => .ofExcept _
  cases op with
  | or =>
      refine (hev w scope left hleft).bind fun v a _ => ?_
      split
      · exact .pure _
      · exact hev v scope right hright
  | and =>
      refine (hev w scope left hleft).bind fun v a _ => ?_
      split
      · exact hev v scope right hright
      · exact .pure _
  | test =>
      refine (hev w scope left hleft).bind fun v a _ => ?_
      refine (testCall_spares hev hright).bind fun u t _ => ?_
      obtain ⟨name, args⟩ := t
      dsimp only
      split
      · exact .fail _
      · exact (Spares.ofExcept _).bind fun _ _ _ => .pure _
  | _ => exact hstrict

omit hev in
/-- The body of a call keeps what is visible where it stands. -/
theorem caller_spares (role : MacroRole) (name : String) (parameters body : Node) :
    (caller scope role name parameters body own).Spares own b w := by
  refine Spares.bind (.of_keepsFrames fun _ => rfl) fun v declared _ => ?_
  refine Spares.bind (.of_keepsFrames fun _ => rfl) fun u bindings _ => ?_
  exact Spares.bind (.of_keepsFrames fun _ => rfl) fun _ _ _ => .pure _

/-! ### Expressions -/

/-- An expression leaves the frame alone that it is evaluated in, if its parts do. -/
theorem evaluate_spares (hM : (spared own b).Keeps env env)
    (hev' : Evaluator.Mirrored (spared own b) ev ev) (hn : n.Term) :
    (evaluate env ev scope n own).Spares own b w := by
  cases n with
  | literal p value => exact .ofExcept _
  | symbol p name => exact .of_keepsFrames fun _ => rfl
  | group kind p ns =>
      have hns : ∀ n ∈ ns, n.Term := fun n h => hn.member h
      cases kind with
      | array =>
          exact (Spares.sequence fun n h => hev w scope n (hns n h)).bind fun _ _ _ => .pure _
      | dict | keywords => exact (pairs_spares hev hns _).bind fun _ _ _ => .pure _
      | root | sequence | output => exact .fail _
  | binary p op left right =>
      exact binary_spares hev hn.part hn.part
  | unary p op target =>
      exact (hev w scope target hn.part).bind fun _ _ _ => .ofExcept _
  | compare p first operands =>
      refine (hev w scope first hn.part).bind fun v a _ => ?_
      have hoperands : ∀ m ∈ operands, m.Term := fun m hm =>
        hn.child rfl (by simp [Node.children, Node.fields, Node.Field.nodes, hm])
      exact comparisons_spares hev hoperands a
  | operand p op value =>
      exact hev w scope value hn.part
  | choice p condition body otherwise =>
      refine (hev w scope condition hn.part).bind fun v a _ => ?_
      split
      · exact hev v scope body hn.part
      · cases otherwise with
        | none => exact .pure _
        | some m => exact hev v scope m hn.part
  | lookup p target key =>
      exact lookup_spares hev hn.part hn.part
  | call p callee args =>
      refine (hev w scope callee hn.part).bind fun v a _ => ?_
      refine (arguments_spares hev hn.part).bind fun u args _ => ?_
      exact .of_same (call_mirrored hM.toStore hev' (.refl (fun _ => rfl) _) rfl
        (.refl (fun _ => rfl) a)
        ⟨List.forall₂_same.2 fun _ _ => .refl (fun _ => rfl) _, .refl (fun _ => rfl) _⟩)
  | filter p name args =>
      have hargs : args.Term := hn.part
      have hfilter := hM.filter name
      change (applyFilter env ev scope name args own).Spares own b w
      unfold applyFilter
      cases hlookup : env.filters.lookup name with
      | none => exact .fail _
      | some f =>
          rw [hlookup] at hfilter
          cases hfilter with
          | some hf =>
              refine (Spares.sequence fun n h => hev w scope n (hargs.member h)).bind fun v vs _ => ?_
              have hrefl := fun a : Value => Value.Alike.refl (R := Eq) (fun _ => rfl) a
              split
              · exact .of_same (hf (hrefl _) .nil)
              · exact .of_same (hf (hrefl _) (List.forall₂_same.2 fun a _ => hrefl a))
  | definition p role name parameters body =>
      cases role with
      | caller => exact caller_spares .caller name parameters body
      | named => exact .fail _
  | capture | tagCall => cases (Node.term_iff.1 hn).1
  | _ => exact .fail _

end Render

/-- Expressions bind nothing where they are evaluated, however deep they nest. -/
theorem Environment.LeavesFrames.sparesOwn (henv : env.LeavesFrames) (own : FrameId) (b : Bindings)
    (depth : Nat) : (Evaluator.tied env depth).SparesOwn own b := by
  induction depth with
  | zero => exact fun _ _ _ _ => .fail _
  | succ depth ih =>
      exact fun w scope n hn => Mirror.Acts.located
        (Render.evaluate_spares ih (henv.keeps own b) (henv.tied own b depth) hn) rfl

end Stencil
