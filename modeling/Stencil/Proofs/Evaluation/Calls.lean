/-
**Calls keep policies.**

Main results:

* `Stencil.Render.arguments_follows` — arguments are admitted;
* `Stencil.Render.callMacro_follows` — a call of a macro runs its body where the policy lets it run;
* `Stencil.Render.applyFilter_follows`, `Stencil.Render.applyTest_follows`,
  `Stencil.Render.callTag_follows` — filters, tests and extensions.
-/

import Stencil.Proofs.Evaluation.Laws

set_option autoImplicit false

namespace Stencil.Render

open Policy

variable {π : Policy} {σ : Sites} {env : Environment} {ev ev' : Evaluator} {pre : World → Prop}
  {scope : Scope} {frame : FrameId} {n : Node}

/-! ### Arguments -/

theorem argumentsFrom_follows (hev : Evaluator.Follows π σ ev ev') {ns : List Node} {args : CallArgs}
    (hargs : ∀ w, pre w → args.Admitted π)
    (hsite : ∀ n ∈ ns, ∀ w, pre w → π.Evaluates σ scope frame n w) :
    π.Triple pre (argumentsFrom ev scope frame args ns) (argumentsFrom ev' scope frame args ns)
      fun args _ => args.Admitted π := by
  induction ns generalizing pre args with
  | nil => exact Triple.pure hargs
  | cons n rest ih =>
      unfold argumentsFrom
      refine ((hev.eval scope n frame).of_pre (hsite n List.mem_cons_self)).bind fun v => ?_
      have hrest : ∀ m ∈ rest, ∀ w, pre w ∧ v.Admitted π → π.Evaluates σ scope frame m w :=
        fun m hm w hw => hsite m (List.mem_cons_of_mem _ hm) w hw.1
      split
      · refine ih (fun w hw => ?_) hrest
        exact ⟨(hargs w hw.1).1, hw.2.members⟩
      · refine ih (fun w hw => ⟨fun u hu => ?_, (hargs w hw.1).2⟩) hrest
        rcases List.mem_append.1 hu with hu | hu
        · exact (hargs w hw.1).1 u hu
        · rw [List.mem_singleton.1 hu]
          exact hw.2

/-- Arguments are admitted. -/
theorem arguments_follows (hev : Evaluator.Follows π σ ev ev')
    (hargs : ∀ m ∈ n.members, ∀ w, pre w → π.Evaluates σ scope frame m w) :
    π.Triple pre (arguments ev scope n frame) (arguments ev' scope n frame)
      fun args _ => args.Admitted π :=
  argumentsFrom_follows hev (fun _ _ => ⟨fun _ h => by simp at h, .nil⟩) hargs

theorem takeArgument_admitted {args : CallArgs} (h : args.Admitted π) (name : String) :
    (∀ v, (takeArgument args name).1 = some v → v.Admitted π) ∧
      (takeArgument args name).2.Admitted π := by
  unfold takeArgument
  split
  · rename_i v rest hpositional
    have hall := h.1
    rw [hpositional] at hall
    refine ⟨fun u hu => ?_, fun u hu => hall u (List.mem_cons_of_mem _ hu), h.2⟩
    cases hu
    exact hall v List.mem_cons_self
  · split
    · rename_i v hv
      refine ⟨fun u hu => ?_, h.1, h.2.erase name⟩
      cases hu
      exact h.2.get? hv
    · exact ⟨fun u hu => by simp at hu, h⟩

/-! ### Macros -/

theorem declare_follows {role : MacroRole} {name : String} {parameters body : Node}
    (hdeclared : ∀ number w, pre w → π.declared ⟨number, name, plainParameters parameters,
      defaultParameters parameters, body, scope.path, role == .caller⟩) :
    π.Triple pre (declare scope role name parameters body) (declare scope role name parameters body)
      fun declared _ => π.declared declared :=
  Triple.newNumber.map fun number w hw _ => hdeclared number w hw

theorem bindPlain_follows {names : List String} {args : CallArgs}
    (hargs : ∀ w, pre w → args.Admitted π) (hbind : ∀ w, pre w → ∀ name, w.MayBind false frame name) :
    π.Triple pre (bindPlain frame args names) (bindPlain frame args names)
      fun args _ => args.Admitted π := by
  induction names generalizing pre args with
  | nil => exact Triple.pure hargs
  | cons name rest ih =>
      unfold bindPlain
      have htaken := fun w hw => takeArgument_admitted (hargs w hw) name
      rcases htake : takeArgument args name with ⟨v, more⟩
      rw [htake] at htaken
      refine Triple.bind (Triple.setName false (fun w hw => ?_) fun w hw => hbind w hw name)
        fun _ => ?_
      · cases v with
        | none => exact .plain rfl
        | some v => exact (htaken w hw).1 v rfl
      · exact ih (fun w hw => (htaken w hw.1).2) fun w hw => hbind w hw.1

theorem bindDefaults_follows (hev : Evaluator.Follows π σ ev ev') {defaults : List (String × Node)}
    {args : CallArgs} (hargs : ∀ w, pre w → args.Admitted π)
    (hbind : ∀ w, pre w → ∀ name, w.MayBind false frame name)
    (hsite : ∀ d ∈ defaults, ∀ w, pre w → π.Evaluates σ scope frame d.2 w) :
    π.Triple pre (bindDefaults ev scope frame args defaults)
      (bindDefaults ev' scope frame args defaults) fun args _ => args.Admitted π := by
  induction defaults generalizing pre args with
  | nil => exact Triple.pure hargs
  | cons head rest ih =>
      obtain ⟨name, default⟩ := head
      unfold bindDefaults
      have htaken := fun w hw => takeArgument_admitted (hargs w hw) name
      rcases htake : takeArgument args name with ⟨v, more⟩
      rw [htake] at htaken
      have hrest : ∀ v : Value, π.Triple (fun w => pre w ∧ v.Admitted π)
          (Action.setName frame name v false >>= fun _ => bindDefaults ev scope frame more rest)
          (Action.setName frame name v false >>= fun _ => bindDefaults ev' scope frame more rest)
          fun args _ => args.Admitted π := by
        intro v
        refine Triple.bind (Triple.setName false (fun w hw => hw.2)
          fun w hw => hbind w hw.1 name) fun _ => ?_
        exact ih (fun w hw => (htaken w hw.1.1).2) (fun w hw => hbind w hw.1.1)
          fun d hd w hw => hsite d (List.mem_cons_of_mem _ hd) w hw.1.1
      cases v with
      | some v => exact Triple.bind (Triple.pure fun w hw => (htaken w hw).1 v rfl) hrest
      | none =>
          have heval := (hev.eval scope default frame).of_pre (hsite _ List.mem_cons_self)
          exact heval.bind hrest

theorem bindParameters_follows (hev : Evaluator.Follows π σ ev ev') {declared : MacroDef}
    {args : CallArgs} (hargs : ∀ w, pre w → args.Admitted π)
    (hbind : ∀ w, pre w → ∀ name, w.MayBind false frame name)
    (hsite : ∀ d ∈ declared.defaults, ∀ w, pre w → π.Evaluates σ scope frame d.2 w) :
    π.Triple pre (bindParameters ev scope frame declared args)
      (bindParameters ev' scope frame declared args) fun _ _ => True := by
  unfold bindParameters
  refine (bindPlain_follows hargs hbind).bind fun args => ?_
  refine (bindDefaults_follows hev (fun w hw => hw.2) (fun w hw => hbind w hw.1)
    fun d hd w hw => hsite d hd w hw.1).bind fun args => ?_
  split
  · rename_i caller hcaller
    exact Triple.setName false (fun w hw => hw.2.2.get? hcaller) fun w hw => hbind w hw.1.1 _
  · exact Triple.pure fun _ _ => trivial

/-- The frame that the body of a macro runs in is made, and lies at a border. -/
theorem macroFrame_follows {closure : Option Bindings}
    (hclosure : ∀ w, pre w → ∀ b, closure = some b → Bindings.Admitted π b) :
    π.Triple pre (macroFrame closure) (macroFrame closure) fun id w =>
      ∃ f, w.Made (fun _ => False) id f ∧ f.topLevel = false ∧
        (f.parent = none ∨ f.isolated = true) := by
  unfold macroFrame
  split
  · rename_i bindings
    refine Triple.bind (Triple.newFrame fun w hw => hclosure w hw bindings rfl) fun outer => ?_
    exact (Triple.newFrame fun _ _ => .nil).mono (fun _ h => h)
      fun id w h => ⟨_, h, rfl, .inr rfl⟩
  · exact (Triple.newFrame fun _ _ => .nil).mono (fun _ h => h)
      fun id w h => ⟨_, h, rfl, .inl rfl⟩

/-- The scope that the body of a macro runs in. -/
theorem macroScope_follows {declared : MacroDef} {exports : Option Bindings}
    (hexports : ∀ w, pre w → ∀ b, exports = some b → Bindings.Admitted π b) :
    π.Triple pre (macroScope scope declared exports) (macroScope scope declared exports)
      fun inner w => (inner.context = scope.context ∨ w.MadeContext inner.context) ∧
        inner.block = none ∧ inner.path = declared.template ∧ .parent inner.parent ∈ w.may := by
  unfold macroScope
  split
  · rename_i bindings
    refine Triple.bind (m := fun c _ => Bindings.Admitted π c.globals) ?_ fun c => ?_
    · exact Triple.read fun w _ hs _ => .of_forall fun _ => (hs.context scope.context).1
    · refine Triple.bind (Triple.newContext fun w hw =>
        ⟨hw.2, hexports w hw.1 bindings rfl, fun _ h => by simp [Context.ofBlocks,
          Named.ofList, Named.insertAll] at h⟩) fun context => ?_
      refine (Triple.create context declared.template none).keep.mono (fun _ h => h)
        fun inner w h => ?_
      obtain ⟨⟨_, hmade⟩, hcontext, hpath, hblock, hmay, _⟩ := h
      exact ⟨.inr (hcontext ▸ hmade), hblock, hpath, hmay⟩
  · refine (Triple.create scope.context declared.template none).mono (fun _ h => h)
      fun inner w h => ⟨.inl h.1, h.2.2.1, h.2.1, h.2.2.2.1⟩

/-- The body of a macro runs where the policy lets it run, and gives a safe text. -/
theorem runMacro_follows (hπ : π.Lawful σ env) (hev : Evaluator.Follows π σ ev ev')
    {declared : MacroDef} {closure exports : Option Bindings} {args : CallArgs}
    (hsite : ∀ w, pre w → σ.site scope frame n w)
    (hcallable : ∀ w, pre w → (Value.callable declared closure exports).Admitted π)
    (hargs : ∀ w, pre w → args.Admitted π) :
    π.Triple pre (runMacro ev scope declared closure exports args)
      (runMacro ev' scope declared closure exports args) fun v _ => v.Admitted π := by
  unfold runMacro
  refine (macroFrame_follows fun w hw => (hcallable w hw).callableParts.2.1).bind fun id => ?_
  refine (macroScope_follows fun w hw => (hcallable w hw.1).callableParts.2.2).bind
    fun inner => ?_
  -- the body and the defaults run in the frame and the scope just made
  have hinner : ∀ w, (pre w ∧ ∃ f, w.Made (fun _ => False) id f ∧ f.topLevel = false ∧
      (f.parent = none ∨ f.isolated = true)) ∧
      ((inner.context = scope.context ∨ w.MadeContext inner.context) ∧ inner.block = none ∧
        inner.path = declared.template ∧ .parent inner.parent ∈ w.may) →
      π.Runs σ inner id declared.body w ∧
        ∀ d ∈ declared.defaults, π.Evaluates σ inner id d.2 w := by
    rintro w ⟨⟨hpre, f, hmade, htop, hborder⟩, hcontext, hblock, hpath, hmay⟩
    exact hπ.call (hsite w hpre) (hcallable w hpre).callableParts.1 hmade htop hborder hcontext
      hblock hpath hmay
  refine (bindParameters_follows hev (fun w hw => hargs w hw.1.1) ?_ ?_).bind fun _ => ?_
  · rintro w ⟨⟨_, f, hmade, _, hborder⟩, _⟩ name
    exact (hmade.open_border hborder).mayBind not_false
  · exact fun d hd w hw => (hinner w hw).2 d hd
  · have hbody := (hev.exec inner declared.body id).of_pre fun w hw => (hinner w hw).1
    have hsafe : ∀ {x x' : Action String} {pre' : World → Prop},
        π.Triple pre' x x' (fun text _ => π.text text) →
          π.Triple pre' (do return Value.safe (← x)) (do return Value.safe (← x')) fun v _ =>
            v.Admitted π :=
      fun h => h.bind fun out => Triple.pure fun _ hw => Value.Admitted.safe hw.2
    cases exports with
    | none => exact hsafe (hbody.of_pre fun _ hw => hw.1)
    | some b => exact hsafe ((hbody.throughTemplate _).of_pre fun _ hw => hw.1)

/-- A call of a macro keeps a policy. -/
theorem callMacro_follows (hπ : π.Lawful σ env) (hev : Evaluator.Follows π σ ev ev')
    {declared : MacroDef} {closure exports : Option Bindings} {args : CallArgs}
    (hsite : ∀ w, pre w → σ.site scope frame n w)
    (hcallable : ∀ w, pre w → (Value.callable declared closure exports).Admitted π)
    (hargs : ∀ w, pre w → args.Admitted π) :
    π.Triple pre (callMacro ev scope declared closure exports args)
      (callMacro ev' scope declared closure exports args) fun v _ => v.Admitted π := by
  have hdepth : ∀ (f : Nat → Nat) (s : State), s.SameStore { s with depth := f s.depth } :=
    fun _ s => { State.SameStore.refl s with }
  unfold callMacro
  refine Triple.bind (m := fun _ _ => True) ?_ fun depth => ?_
  · exact Triple.read fun _ _ _ _ => .of_forall fun _ => trivial
  · split
    · exact Triple.fail fun _ _ => hπ.tolerant _ rfl
    · refine (Triple.sameStore (hdepth (· + 1))).bind fun _ => ?_
      refine Triple.andFinally ?_ (hdepth (· - 1))
      exact runMacro_follows hπ hev (fun w hw => hsite w hw.1.1) (fun w hw => hcallable w hw.1.1)
        fun w hw => hargs w hw.1.1

/-! ### Calls -/

theorem callFunction_follows {number : Nat} {args : CallArgs}
    (hargs : ∀ w, pre w → args.Admitted π) :
    π.Triple pre (callFunction number args) (callFunction number args)
      fun v _ => v.Admitted π := by
  refine Triple.now (fun s => (s.functions[number]?).elim (.ok .nothing) fun f => f args) id
    (fun s => ?_) .refl fun w _ hs hw => ⟨hs, w, .refl w, rfl, ?_⟩
  · unfold callFunction
    cases s.functions[number]? <;> rfl
  · cases hf : w.state.functions[number]? with
    | none => exact .of_forall fun _ => .plain rfl
    | some f =>
        have hargs := hargs w hw.now
        have hanswer := hs.functions f (Array.mem_of_getElem? hf) args hargs.1 hargs.2
        rw [Option.elim_some]
        cases h : f args with
        | ok v =>
            rw [h] at hanswer
            exact .of_forall fun _ => hanswer
        | error e =>
            rw [h] at hanswer
            exact hanswer

/-- A call of a value keeps a policy. -/
theorem call_follows (hπ : π.Lawful σ env) (hev : Evaluator.Follows π σ ev ev') {name : Node}
    {callee : Value} {args : CallArgs} (hsite : ∀ w, pre w → σ.site scope frame n w)
    (hcallee : ∀ w, pre w → callee.Admitted π) (hargs : ∀ w, pre w → args.Admitted π) :
    π.Triple pre (call ev scope name callee args) (call ev' scope name callee args)
      fun v _ => v.Admitted π := by
  unfold call
  split
  · exact callMacro_follows hπ hev hsite hcallee hargs
  · exact (callFunction_follows hargs).located _
  · split <;> exact Triple.fail fun _ _ => hπ.tolerant _ rfl

/-! ### Filters, tests and extensions -/

theorem applyFilter_follows (hπ : π.Lawful σ env) (hev : Evaluator.Follows π σ ev ev')
    {p : Position} {name : String} :
    π.Triple (σ.site scope frame (.filter p name n)) (applyFilter env ev scope name n frame)
      (applyFilter env ev' scope name n frame) fun v _ => v.Admitted π := by
  have hmember : ∀ m ∈ n.members, ∀ w, σ.site scope frame (.filter p name n) w →
      π.Evaluates σ scope frame m w :=
    fun m hm w hw => hπ.arguments hw rfl List.mem_cons_self hm
  unfold applyFilter
  split
  · exact Triple.fail fun _ _ => hπ.tolerant _ rfl
  · rename_i filter hfilter
    refine Triple.bind (Triple.sequence (Q := fun v => v.Admitted π) fun m hm =>
      (hev.eval scope m frame).of_pre (hmember m hm)) fun vs => ?_
    cases vs with
    | nil =>
        exact (hπ.filter hfilter).of_pre fun w hw => ⟨hw.1, .plain rfl, fun _ h => by simp at h⟩
    | cons v args =>
        exact (hπ.filter hfilter).of_pre fun w hw =>
          ⟨hw.1, hw.2 v List.mem_cons_self, fun a ha => hw.2 a (List.mem_cons_of_mem _ ha)⟩

theorem testCall_follows (hπ : π.Lawful σ env) (hev : Evaluator.Follows π σ ev ev') :
    π.Triple (σ.site scope frame n) (testCall ev scope n frame) (testCall ev' scope n frame)
      fun _ _ => True := by
  unfold testCall
  split
  · exact Triple.pure fun _ _ => trivial
  · exact Triple.pure fun _ _ => trivial
  · rename_i p q name args
    refine Triple.bind (arguments_follows hev fun m hm w hw =>
      hπ.arguments hw rfl (List.mem_cons_of_mem _ List.mem_cons_self) hm) fun args => ?_
    exact Triple.pure fun _ _ => trivial
  · exact Triple.fail fun _ _ => hπ.tolerant _ rfl

theorem applyTest_follows (hπ : π.Lawful σ env) (hev : Evaluator.Follows π σ ev ev')
    {left right : Node} (hleft : ∀ w, pre w → π.Evaluates σ scope frame left w)
    (hright : ∀ w, pre w → σ.site scope frame right w) :
    π.Triple pre (applyTest env ev scope left right frame)
      (applyTest env ev' scope left right frame) fun v _ => v.Admitted π := by
  unfold applyTest
  refine ((hev.eval scope left frame).of_pre hleft).bind fun v => ?_
  refine ((testCall_follows hπ hev).of_pre fun w hw => hright w hw.1).bind
    fun ⟨name, args⟩ => ?_
  dsimp only
  split
  · exact Triple.fail fun _ _ => hπ.tolerant _ rfl
  · rename_i test htest
    refine Triple.bind (m := fun _ _ => True) (Triple.ofExcept (fun _ _ _ _ => trivial)
      fun e he _ _ => hπ.test htest he) fun b => ?_
    exact Triple.pure fun _ _ => .plain rfl

/-- There is no extension that could be called. -/
theorem callTag_follows (hπ : π.Lawful σ env) {tag : TagCall} {args : Node} {content : List Node} :
    π.Triple pre (callTag env ev scope tag args content frame)
      (callTag env ev' scope tag args content frame) fun v _ => v.Admitted π := by
  have hnone : env.extension? tag.extension = none := by
    rw [Environment.extension?, hπ.extensions]
    rfl
  unfold callTag
  rw [hnone]
  exact Triple.fail fun _ _ => hπ.tolerant _ rfl

end Stencil.Render
