/-
**Expressions keep policies.**

Main results:

* `Stencil.Render.evaluate_follows` — an expression has an admitted value, whatever is watched for.
-/

import Stencil.Proofs.Evaluation.Calls

set_option autoImplicit false

namespace Stencil.Render

open Policy

variable {π : Policy} {σ : Sites} {env : Environment} {ev ev' : Evaluator} {pre : World → Prop}
  {scope : Scope} {frame : FrameId}

/-- The answer of an operator. -/
theorem answer_follows {answer : Except TemplateError Value} (h : ∀ w, pre w → π.Answers answer) :
    π.Triple pre (Action.ofExcept answer) (Action.ofExcept answer) fun v _ => v.Admitted π := by
  refine Triple.ofExcept ?_ ?_
  · rintro v rfl w hw
    exact h w hw
  · rintro e rfl w hw
    exact h w hw

theorem lookupName_follows (name : String) :
    π.Triple pre (scope.lookup frame name) (scope.lookup frame name)
      fun v _ => v.Admitted π := by
  refine Triple.read fun w _ hs _ => .of_forall fun _ => ?_
  cases hv : w.state.frames.lookup frame name with
  | some v => exact hs.lookup hv
  | none => exact hs.contextLookup scope.context name

/-! ### Operators -/

theorem binary_follows (hπ : π.Lawful σ env) (hev : Evaluator.Follows π σ ev ev') {op : BinaryOp}
    {left right : Node} (hleft : ∀ w, pre w → π.Evaluates σ scope frame left w)
    (hright : ∀ w, pre w → π.Evaluates σ scope frame right w) :
    π.Triple pre (binary env ev scope op left right frame)
      (binary env ev' scope op left right frame) fun v _ => v.Admitted π := by
  have hl := (hev.eval scope left frame).of_pre hleft
  have hr : ∀ {Q : World → Prop}, π.Triple (fun w => pre w ∧ Q w) (ev.eval scope right frame)
      (ev'.eval scope right frame) fun v _ => v.Admitted π :=
    (hev.eval scope right frame).of_pre fun w hw => hright w hw.1
  cases op with
  | or =>
      refine hl.bind fun v => ?_
      split
      · exact Triple.pure fun _ hw => hw.2
      · exact hr
  | and =>
      refine hl.bind fun v => ?_
      split
      · exact hr
      · exact Triple.pure fun _ hw => hw.2
  | test => exact applyTest_follows hπ hev hleft fun w hw => (hright w hw).1
  | within | add | concat | sub | mul | div | floorDiv | mod | pow =>
      refine hl.bind fun a => hr.bind fun b => ?_
      exact answer_follows fun w hw =>
        Answers.strictOperator hπ.tolerant _ hw.1.2 hw.2

theorem comparisons_follows (hπ : π.Lawful σ env) (hev : Evaluator.Follows π σ ev ev')
    {operands : List Node} {v : Value} (hv : ∀ w, pre w → v.Admitted π)
    (hsite : ∀ n ∈ operands, ∀ w, pre w → σ.site scope frame n w ∧ π.Expects .operand n) :
    π.Triple pre (comparisons ev scope frame v operands) (comparisons ev' scope frame v operands)
      fun v _ => v.Admitted π := by
  induction operands generalizing pre v with
  | nil => exact Triple.pure hv
  | cons n rest ih =>
      have hn := hsite n List.mem_cons_self
      cases n with
      | operand p op m =>
          unfold comparisons
          refine ((hev.eval scope m frame).of_pre fun w hw =>
            hπ.evaluates (hn w hw).1 rfl List.mem_cons_self).bind fun u => ?_
          exact ih (fun _ _ => .plain rfl)
            fun k hk w hw => hsite k (List.mem_cons_of_mem _ hk) w hw.1
      | _ =>
          unfold comparisons
          exact Triple.fail fun w hw => (hn w hw).2.cause rfl rfl

/-! ### Maps, members and slices -/

theorem pairKey_follows (hev : Evaluator.Follows π σ ev ev') {key : Node}
    (hkey : ∀ w, pre w → π.Evaluates σ scope frame key w) :
    π.Triple pre (pairKey ev scope frame key) (pairKey ev' scope frame key) fun _ _ => True := by
  unfold pairKey
  split
  · exact Triple.pure fun _ _ => trivial
  · exact ((hev.eval scope key frame).of_pre hkey).bind fun v => Triple.pure fun _ _ => trivial

theorem pairs_follows (hπ : π.Lawful σ env) (hev : Evaluator.Follows π σ ev ev') {ns : List Node}
    {members : Bindings} (hmembers : ∀ w, pre w → Bindings.Admitted π members)
    (hsite : ∀ n ∈ ns, ∀ w, pre w → σ.site scope frame n w ∧ π.Expects .entry n) :
    π.Triple pre (pairs ev scope frame members ns) (pairs ev' scope frame members ns)
      fun b _ => Bindings.Admitted π b := by
  induction ns generalizing pre members with
  | nil => exact Triple.pure hmembers
  | cons n rest ih =>
      have hn := hsite n List.mem_cons_self
      cases n with
      | pair p key value =>
          unfold pairs
          refine (pairKey_follows hev fun w hw =>
            hπ.evaluates (hn w hw).1 rfl List.mem_cons_self).bind fun name => ?_
          refine ((hev.eval scope value frame).of_pre fun w hw => hπ.evaluates (hn w hw.1).1 rfl
            (List.mem_cons_of_mem _ List.mem_cons_self)).bind fun v => ?_
          exact ih (fun w hw => (hmembers w hw.1.1).insert hw.2 name)
            fun k hk w hw => hsite k (List.mem_cons_of_mem _ hk) w hw.1.1
      | _ =>
          unfold pairs
          exact Triple.fail fun w hw => (hn w hw).2.cause rfl rfl

theorem sliceIndex_follows (hπ : π.Lawful σ env) (hev : Evaluator.Follows π σ ev ev')
    {n : Option Node} (hn : ∀ m, n = some m → ∀ w, pre w → π.Evaluates σ scope frame m w) :
    π.Triple pre (sliceIndex ev scope n frame) (sliceIndex ev' scope n frame)
      fun _ _ => True := by
  unfold sliceIndex
  cases n with
  | none => exact Triple.pure fun _ _ => trivial
  | some m =>
      refine ((hev.eval scope m frame).of_pre (hn m rfl)).bind fun v => ?_
      split
      · exact Triple.pure fun _ _ => trivial
      · split
        · exact Triple.pure fun _ _ => trivial
        · exact Triple.fail fun _ _ => hπ.tolerant _ rfl

theorem lookup_follows (hπ : π.Lawful σ env) (hev : Evaluator.Follows π σ ev ev') {target key : Node}
    (htarget : ∀ w, pre w → π.Evaluates σ scope frame target w)
    (hkey : ∀ w, pre w → σ.site scope frame key w ∧ π.Expects .key key) :
    π.Triple pre (lookup ev scope target key frame) (lookup ev' scope target key frame)
      fun v _ => v.Admitted π := by
  have hmember : ∀ {Q : World → Prop} (v : Value), key.isSlice = false →
      (∀ w, Q w → v.Admitted π) → (∀ w, Q w → pre w) →
        π.Triple Q (do return v.member (← ev.eval scope key frame))
          (do return v.member (← ev'.eval scope key frame)) fun v _ => v.Admitted π := by
    intro Q v hslice hv hQ
    refine ((hev.eval scope key frame).of_pre fun w hw => ⟨(hkey w (hQ w hw)).1,
      (hkey w (hQ w hw)).2.imp id fun hplays => ?_⟩).bind fun k => ?_
    · simp_all [Node.plays]
    exact Triple.pure fun w hw => (hv w hw.1).member
  unfold lookup
  refine ((hev.eval scope target frame).of_pre htarget).bind fun v => ?_
  cases key with
  | slice p start stop step =>
      have hpart : ∀ {o : Option Node} {m : Node}, o = some m → (o = start ∨ o = stop ∨ o = step) →
          ∀ w, pre w → π.Evaluates σ scope frame m w := by
        intro o m ho hwhere w hw
        refine hπ.evaluates (hkey w hw).1 rfl ?_
        rcases hwhere with rfl | rfl | rfl <;> simp [Node.parts, Node.eachAs, ho]
      refine (sliceIndex_follows hπ hev fun m hm w hw =>
        hpart hm (.inl rfl) w hw.1).bind fun start => ?_
      refine (sliceIndex_follows hπ hev fun m hm w hw =>
        hpart hm (.inr (.inl rfl)) w hw.1.1).bind fun stop => ?_
      refine (sliceIndex_follows hπ hev fun m hm w hw =>
        hpart hm (.inr (.inr rfl)) w hw.1.1.1).bind fun step => ?_
      exact answer_follows fun w hw => Answers.slice hπ.tolerant hw.1.1.1.2 start stop step
  | _ => exact hmember v rfl (fun w hw => hw.2) fun w hw => hw.1

/-! ### Expressions -/

/-- The body of a call is declared with what is visible where the call stands. -/
theorem caller_follows {role : MacroRole} {name : String} {parameters body : Node}
    (hdeclared : ∀ number w, pre w → π.declared ⟨number, name, plainParameters parameters,
      defaultParameters parameters, body, scope.path, role == .caller⟩) :
    π.Triple pre (caller scope role name parameters body frame)
      (caller scope role name parameters body frame) fun v _ => v.Admitted π := by
  unfold caller
  refine (declare_follows hdeclared).bind fun declared => ?_
  refine Triple.bind (m := fun b _ => Bindings.Admitted π b) ?_ fun bindings => ?_
  · unfold Scope.bindings Action.context
    refine Triple.map (m := fun c _ => Bindings.Admitted π c.bindings) ?_ fun c w _ hc => hc
    exact Triple.read fun w _ hs _ => .of_forall fun _ => (hs.context scope.context).2
  · refine Triple.bind (m := fun b _ => Bindings.Admitted π b) ?_ fun visible => ?_
    · exact Triple.read fun w _ hs _ => .of_forall fun _ => hs.flatten frame
    · refine Triple.pure fun w hw => .callable hw.1.1.2 ?_ fun _ h => by cases h
      intro b hb
      cases hb
      exact hw.1.2.insertAll hw.2

/-- An expression has an admitted value. -/
theorem evaluate_follows (hπ : π.Lawful σ env) (hev : Evaluator.Follows π σ ev ev') (n : Node) :
    π.Triple (π.Evaluates σ scope frame n) (evaluate env ev scope n frame)
      (evaluate env ev' scope n frame) fun v _ => v.Admitted π := by
  -- the parts of a node that is not declared apart are evaluated where the node is
  have hpart : ∀ {c : Node}, n.isApart = false → (.value, c) ∈ n.parts →
      ∀ w, π.Evaluates σ scope frame n w → π.Evaluates σ scope frame c w :=
    fun hn hc w hw => hπ.evaluates hw.1 hn hc
  cases n with
  | literal p value => exact answer_follows fun _ _ => Answers.literal hπ.tolerant value
  | symbol p name => exact lookupName_follows name
  | group kind p members =>
      have hpairs : (∀ m ∈ members, ∀ w, π.Evaluates σ scope frame (.group kind p members) w →
          π.Expects .entry m) → π.Triple (π.Evaluates σ scope frame (.group kind p members))
            (pairs ev scope frame [] members) (pairs ev' scope frame [] members)
            fun b _ => Bindings.Admitted π b := fun hentry =>
        pairs_follows hπ hev (fun _ _ => .nil) fun m hm w hw =>
          ⟨hπ.member hw.1 hm, hentry m hm w hw⟩
      cases kind with
      | array =>
          refine Triple.bind (Triple.sequence (Q := fun v => v.Admitted π) fun m hm =>
            (hev.eval scope m frame).of_pre fun w hw =>
              hpart rfl (List.mem_map.2 ⟨m, hm, rfl⟩) w hw) fun vs => ?_
          exact Triple.pure fun _ hw => .array hw.2
      | dict =>
          refine (hpairs fun m hm w hw => ?_).bind fun b => Triple.pure fun _ hw => .map hw.2
          exact hπ.expects hw.1 (List.mem_map.2 ⟨m, hm, rfl⟩)
      | keywords =>
          refine (hpairs fun m hm w hw => ?_).bind fun b => Triple.pure fun _ hw => .map hw.2
          exact (hπ.expects (r := .keyword) hw.1 (List.mem_map.2 ⟨m, hm, rfl⟩)).imp id
            Node.plays_entry
      | root | sequence | output => exact Triple.fail fun _ hw => hw.2.cause rfl rfl
  | capture p body =>
      refine ((hev.exec scope body frame).of_pre fun w hw =>
        hπ.runs hw.1 rfl List.mem_cons_self).bind fun out => ?_
      exact Triple.pure fun _ hw => .safe hw.2
  | binary p op left right =>
      exact binary_follows hπ hev (hpart rfl List.mem_cons_self)
        (hpart rfl (List.mem_cons_of_mem _ List.mem_cons_self))
  | unary p op target =>
      refine ((hev.eval scope target frame).of_pre
        (hpart rfl List.mem_cons_self)).bind fun v => ?_
      exact answer_follows fun _ hw => Answers.unaryOperator hπ.tolerant op hw.2
  | compare p first operands =>
      refine ((hev.eval scope first frame).of_pre
        (hpart rfl List.mem_cons_self)).bind fun v => ?_
      refine comparisons_follows hπ hev (fun _ hw => hw.2) fun m hm w hw => ?_
      have hm : (Node.Role.operand, m) ∈ (Node.compare p first operands).parts :=
        List.mem_cons_of_mem _ (List.mem_map.2 ⟨m, hm, rfl⟩)
      exact ⟨hπ.child hw.1.1 rfl (Node.mem_children_of_mem_parts hm), hπ.expects hw.1.1 hm⟩
  | operand p op value => exact (hev.eval scope value frame).of_pre (hpart rfl List.mem_cons_self)
  | choice p condition body otherwise =>
      refine ((hev.eval scope condition frame).of_pre
        (hpart rfl List.mem_cons_self)).bind fun v => ?_
      split
      · exact (hev.eval scope body frame).of_pre fun w hw =>
          hpart rfl (List.mem_cons_of_mem _ List.mem_cons_self) w hw.1
      · cases otherwise with
        | none => exact Triple.pure fun _ _ => .plain rfl
        | some m =>
            exact (hev.eval scope m frame).of_pre fun w hw =>
              hpart rfl (by simp [Node.parts, Node.eachAs]) w hw.1
  | lookup p target key =>
      have hkey : (Node.Role.key, key) ∈ (Node.lookup p target key).parts :=
        List.mem_cons_of_mem _ List.mem_cons_self
      exact lookup_follows hπ hev (hpart rfl List.mem_cons_self) fun w hw =>
        ⟨hπ.child hw.1 rfl (Node.mem_children_of_mem_parts hkey), hπ.expects hw.1 hkey⟩
  | call p callee args =>
      refine ((hev.eval scope callee frame).of_pre
        (hpart rfl List.mem_cons_self)).bind fun v => ?_
      refine Triple.bind (arguments_follows hev fun m hm w hw => hπ.arguments hw.1.1 rfl
        (List.mem_cons_of_mem _ List.mem_cons_self) hm) fun args => ?_
      exact call_follows hπ hev (fun w hw => hw.1.1.1) (fun w hw => hw.1.2) fun w hw => hw.2
  | filter p name args => exact (applyFilter_follows hπ hev).of_pre fun _ hw => hw.1
  | tagCall p tag args content => exact callTag_follows hπ
  | definition p role name parameters body =>
      cases role with
      | caller => exact caller_follows fun number w hw => hπ.declares hw.1
      | named => exact Triple.fail fun _ hw => hw.2.cause rfl rfl
  | pair _ _ _ | slice _ _ _ _ | text _ _ | branch _ _ _ _ _ | loop _ _ _ _ _ _ | assign _ _ _ _
  | block _ _ _ | overridden _ _ _ | extend _ _ | embed _ _ _ | importAll _ _ _ _
  | importNames _ _ _ _ | bind _ _ _ => exact Triple.fail fun _ hw => hw.2.cause rfl rfl

end Stencil.Render
