/-
**Statements keep policies.**

Main results:

* `Stencil.Render.loopFrames_follows` — the frames that the iterations of a loop run in;
* `Stencil.Render.runBlock_follows`, `Stencil.Render.template_follows` — blocks and whole templates;
* `Stencil.Render.execute_follows` — a statement that no inheritance is involved in;
* `Stencil.Render.inheritance_follows` — a block, an overridden block or an extended template.
-/

import Stencil.Proofs.Evaluation.Expressions

set_option autoImplicit false

namespace Stencil.Render

open Policy

variable {π : Policy} {σ : Sites} {env : Environment} {ev ev' : Evaluator} {pre : World → Prop}
  {scope : Scope} {frame : FrameId}

/-! ### Outputs -/

theorem ofWritten_follows (hπ : π.Lawful σ env) {v : Value} (hv : ∀ w, pre w → v.Admitted π) :
    π.Triple pre (Action.ofExcept (written env.config v)) (Action.ofExcept (written env.config v))
      fun text _ => π.text text := by
  refine Triple.ofExcept (fun text h w hw => hπ.written (hv w hw) h) fun e he w hw => ?_
  have hcause : e.cause = .nullOutput := by
    unfold written at he
    split at he
    · split at he
      · cases he
        rfl
      · cases he
    · split at he
      · cases he
        rfl
      · cases he
    · cases he
    · cases he
  rw [hcause]
  exact hπ.tolerant _ rfl

theorem outputMember_follows (hπ : π.Lawful σ env) (hev : Evaluator.Follows π σ ev ev') {n : Node}
    (hn : ∀ w, pre w → σ.site scope frame n w ∧ π.Expects .content n) :
    π.Triple pre (outputMember env ev scope frame n) (outputMember env ev' scope frame n)
      fun text _ => π.text text := by
  have hvalue (htext : n.isText = false) : π.Triple pre
      (do let v ← ev.eval scope n frame
          Action.located n.position (Action.ofExcept (written env.config v)))
      (do let v ← ev'.eval scope n frame
          Action.located n.position (Action.ofExcept (written env.config v)))
      fun text _ => π.text text :=
    ((hev.eval scope n frame).of_pre fun w hw => ⟨(hn w hw).1, (hn w hw).2.imp id fun hplays =>
      by simp_all [Node.plays]⟩).bind fun v => (ofWritten_follows hπ fun _ hw => hw.2).located _
  cases n with
  | text p content => exact Triple.pure fun w hw => hπ.content (hn w hw).1
  | _ => exact hvalue rfl

theorem bareExpression_follows (hπ : π.Lawful σ env) (hev : Evaluator.Follows π σ ev ev') (n : Node) :
    π.Triple (π.Evaluates σ scope frame n) (bareExpression env ev scope n frame)
      (bareExpression env ev' scope n frame) fun text _ => π.text text :=
  (hev.eval scope n frame).bind fun _ => ofWritten_follows hπ fun _ hw => hw.2

/-- There is no extension that could write anything. -/
theorem tagOutput_follows (hπ : π.Lawful σ env) {tag : TagCall} {args : Node}
    {content : List Node} :
    π.Triple pre (tagOutput env ev scope tag args content frame)
      (tagOutput env ev' scope tag args content frame) fun text _ => π.text text := by
  have hnone : env.extension? tag.extension = none := by
    rw [Environment.extension?, hπ.extensions]
    rfl
  unfold tagOutput callTag
  rw [hnone]
  exact Triple.fail fun _ _ => hπ.tolerant (.extensionNotFound tag.extension) rfl

/-! ### Conditions and loops -/

theorem branch_follows (hπ : π.Lawful σ env) (hev : Evaluator.Follows π σ ev ev')
    {condition body : Node} {otherwise : Option Node}
    (hcondition : ∀ w, pre w → π.Evaluates σ scope frame condition w)
    (hbody : ∀ w, pre w → π.Runs σ scope frame body w)
    (hotherwise : ∀ n, otherwise = some n → ∀ w, pre w → π.Runs σ scope frame n w) :
    π.Triple pre (branch ev scope condition body otherwise frame)
      (branch ev' scope condition body otherwise frame) fun text _ => π.text text := by
  unfold branch
  refine ((hev.eval scope condition frame).of_pre hcondition).bind fun v => ?_
  split
  · exact (hev.exec scope body frame).of_pre fun w hw => hbody w hw.1
  · cases otherwise with
    | none => exact Triple.pure fun _ _ => hπ.text_empty
    | some n => exact (hev.exec scope n frame).of_pre fun w hw => hotherwise n rfl w hw.1

theorem loopItems_admitted {names : Nat} {v : Value} {items : List Value} (hv : v.Admitted π)
    (h : loopItems? names v = some items) : ∀ item ∈ items, item.Admitted π := by
  unfold loopItems? at h
  split at h
  · cases h
    exact hv.items
  · rename_i members
    have hmembers := hv.members
    split at h
    · cases h
      intro item hitem
      obtain ⟨m, hm, rfl⟩ := List.mem_map.1 hitem
      refine .array fun u hu => ?_
      rcases List.mem_cons.1 hu with rfl | hu
      · exact .plain rfl
      · rw [List.mem_singleton.1 hu]
        exact hmembers m hm
    · cases h
      intro item hitem
      obtain ⟨m, hm, rfl⟩ := List.mem_map.1 hitem
      exact .plain rfl
  · cases h
    intro item hitem
    obtain ⟨c, _, rfl⟩ := List.mem_map.1 hitem
    exact .plain rfl
  · cases h
    intro item hitem
    obtain ⟨c, _, rfl⟩ := List.mem_map.1 hitem
    exact .plain rfl
  · cases h
    exact fun _ hitem => by simp at hitem
  · cases h
    exact fun _ hitem => by simp at hitem
  · cases h

theorem loopState_admitted (index length : Nat) : (loopState index length).Admitted π := by
  refine .map fun m hm => ?_
  simp only [List.mem_cons, List.not_mem_nil, or_false] at hm
  rcases hm with rfl | rfl | rfl | rfl | rfl | rfl | rfl <;> exact .plain rfl

/-- What a loop binds in an iteration is admitted, and bound to the names of the loop. -/
theorem loopBindings_admitted {names : List String} {item : Value} {index length : Nat}
    {bindings : Bindings} (hitem : item.Admitted π)
    (h : loopBindings names item index length = .ok bindings) :
    Bindings.Admitted π bindings ∧ ∀ m ∈ bindings, m.1 ∈ names ∨ m.1 = "loop" := by
  have hloop : ∀ bound : Bindings, Bindings.Admitted π bound → (∀ m ∈ bound, m.1 ∈ names) →
      Bindings.Admitted π (Named.insert bound "loop" (loopState index length)) ∧
        ∀ m ∈ Named.insert bound "loop" (loopState index length), m.1 ∈ names ∨ m.1 = "loop" := by
    intro bound hbound hnames
    refine ⟨hbound.insert (loopState_admitted index length) "loop", fun m hm => ?_⟩
    rcases Named.mem_of_mem_insert hm with rfl | hm
    · exact .inr rfl
    · exact .inl (hnames m hm)
  unfold loopBindings at h
  split at h
  · rename_i name
    cases h
    refine hloop _ (fun m hm => ?_) fun m hm => ?_
    · rw [List.mem_singleton.1 hm]
      exact hitem
    · rw [List.mem_singleton.1 hm]
      exact List.mem_cons_self
  · rename_i parts _
    cases h
    refine hloop _ (fun m hm => ?_) fun m hm => ?_
    · obtain ⟨i, hi, rfl⟩ := List.mem_mapIdx.1 (Named.mem_of_mem_ofList hm)
      cases hpart : parts[i]? with
      | none => exact .plain rfl
      | some part => exact hitem.items part (List.mem_of_getElem? hpart)
    · obtain ⟨i, hi, rfl⟩ := List.mem_mapIdx.1 (Named.mem_of_mem_ofList hm)
      exact List.getElem_mem hi
  · cases h

theorem loopBindings_error {names : List String} {item : Value} {index length : Nat}
    {e : TemplateError} (h : loopBindings names item index length = .error e) :
    e.cause.isOrdinary = true := by
  unfold loopBindings at h
  split at h
  · cases h
  · cases h
  · cases h
    rfl

/-- What holds of all that a function can make of the members of a list. -/
theorem forall_mem_mapM {α β ε : Type} {f : α → Except ε β} {P : β → Prop} {as : List α}
    {bs : List β} (h : as.mapM f = .ok bs) (hf : ∀ a ∈ as, ∀ b, f a = .ok b → P b) :
    ∀ b ∈ bs, P b := by
  induction as generalizing bs with
  | nil =>
      cases h
      exact fun _ hb => by simp at hb
  | cons a as ih =>
      rw [List.mapM_cons] at h
      cases ha : f a with
      | error e =>
          rw [ha] at h
          cases h
      | ok b =>
          rw [ha] at h
          cases has : as.mapM f with
          | error e =>
              rw [has] at h
              cases h
          | ok cs =>
              rw [has] at h
              cases h
              intro c hc
              rcases List.mem_cons.1 hc with rfl | hc
              · exact hf a List.mem_cons_self c ha
              · exact ih has (fun d hd => hf d (List.mem_cons_of_mem _ hd)) c hc

/-- An error of a function on one of the members of a list. -/
theorem exists_mem_of_mapM_error {α β ε : Type} {f : α → Except ε β} {e : ε} {as : List α}
    (h : as.mapM f = .error e) : ∃ a ∈ as, f a = .error e := by
  induction as with
  | nil => cases h
  | cons a as ih =>
      rw [List.mapM_cons] at h
      cases ha : f a with
      | error e' =>
          rw [ha] at h
          cases h
          exact ⟨a, List.mem_cons_self, ha⟩
      | ok b =>
          rw [ha] at h
          cases has : as.mapM f with
          | ok cs =>
              rw [has] at h
              cases h
          | error e' =>
              rw [has] at h
              cases h
              obtain ⟨c, hc, he⟩ := ih has
              exact ⟨c, List.mem_cons_of_mem _ hc, he⟩

/-- The frames that the iterations of a loop run in. -/
theorem loopFrames_follows (hπ : π.Lawful σ env) (hev : Evaluator.Follows π σ ev ev')
    {source target : Node} (hsource : ∀ w, pre w → π.Evaluates σ scope frame source w) :
    π.Triple pre (loopFrames ev scope source target frame)
      (loopFrames ev' scope source target frame) fun ids w => ∀ id ∈ ids, ∃ bindings,
        w.Made σ.held id ⟨bindings, some frame, false, false⟩ ∧
          ∀ m ∈ bindings, m.1 ∈ loopNames target ∨ m.1 = "loop" := by
  unfold loopFrames
  refine ((hev.eval scope source frame).of_pre hsource).bind fun v => ?_
  dsimp only
  split
  · exact (Triple.fail fun _ _ => hπ.tolerant _ rfl).located _
  · rename_i items hitems
    let shape : List Bindings → Prop := fun all => ∀ bindings ∈ all,
      Bindings.Admitted π bindings ∧ ∀ m ∈ bindings, m.1 ∈ loopNames target ∨ m.1 = "loop"
    refine Triple.bind (m := fun all _ => shape all) (Triple.ofExcept ?_ ?_) fun all => ?_
    · intro all hall w hw
      refine forall_mem_mapM hall fun a ha bindings hbindings => ?_
      have hitem := loopItems_admitted hw.2 hitems a.1 (List.fst_mem_of_mem_zipIdx ha)
      exact loopBindings_admitted hitem hbindings
    · intro e he w _
      obtain ⟨a, _, ha⟩ := exists_mem_of_mapM_error he
      exact hπ.tolerant _ (loopBindings_error ha)
    · refine (Triple.newFrames σ.held fun w hw f hf => ?_).keep.mono (fun _ h => h) ?_
      · obtain ⟨bindings, hb, rfl⟩ := List.mem_map.1 hf
        exact (hw.2 bindings hb).1
      · intro ids w hw id hid
        obtain ⟨f, hf, hmade⟩ := hw.2 id hid
        obtain ⟨bindings, hb, rfl⟩ := List.mem_map.1 hf
        exact ⟨bindings, hmade, (hw.1.2 bindings hb).2⟩

/-- The output of a list of texts. -/
theorem text_join (hπ : π.Lawful σ env) {texts : List String} (h : ∀ text ∈ texts, π.text text) :
    π.text (String.join texts) := by
  have main : ∀ out : String, π.text out → π.text (texts.foldl (· ++ ·) out) := by
    induction texts with
    | nil => exact fun _ hout => hout
    | cons text rest ih =>
        intro out hout
        refine ih (fun t ht => h t (List.mem_cons_of_mem _ ht)) _ ?_
        exact hπ.text_append _ _ hout (h text List.mem_cons_self)
  exact main "" hπ.text_empty

/-- A loop runs its body in each of the frames made for it. -/
theorem loop_follows (hπ : π.Lawful σ env) (hev : Evaluator.Follows π σ ev ev') {p : Position}
    {mode : LoopMode} {source target body : Node} {otherwise : Option Node} :
    π.Triple (σ.site scope frame (.loop p mode source target body otherwise))
      (loop ev scope mode source target body otherwise frame)
      (loop ev' scope mode source target body otherwise frame) fun text _ => π.text text := by
  unfold loop
  refine Triple.bind (loopFrames_follows hπ hev fun w hw =>
    hπ.evaluates hw rfl List.mem_cons_self) fun ids => ?_
  cases ids with
  | nil =>
      cases otherwise with
      | none => exact Triple.pure fun _ _ => hπ.text_empty
      | some n =>
          exact (hev.exec scope n frame).of_pre fun w hw =>
            hπ.runs hw.1 rfl (by simp [Node.parts, Node.eachAs])
  | cons first rest =>
      have hbody : ∀ id ∈ first :: rest, π.Triple
          (fun w => ∀ id ∈ first :: rest, π.Runs σ scope id body w) (ev.exec scope body id)
          (ev'.exec scope body id) fun text _ => π.text text :=
        fun id hid => (hev.exec scope body id).of_pre fun w hw => hw id hid
      have hsite : ∀ w, σ.site scope frame (.loop p mode source target body otherwise) w ∧
          (∀ id ∈ first :: rest, ∃ bindings,
            w.Made σ.held id ⟨bindings, some frame, false, false⟩ ∧
              ∀ m ∈ bindings, m.1 ∈ loopNames target ∨ m.1 = "loop") →
            ∀ id ∈ first :: rest, π.Runs σ scope id body w := by
        intro w hw id hid
        obtain ⟨bindings, hmade, hnames⟩ := hw.2 id hid
        refine ⟨hπ.loop hw.1 hmade hnames, (hπ.runs hw.1 rfl ?_).2⟩
        simp [Node.parts]
      have hinTurn : π.Triple (fun w => ∀ id ∈ first :: rest, π.Runs σ scope id body w)
          (Action.appendAll (fun id => ev.exec scope body id) "" (first :: rest))
          (Action.appendAll (fun id => ev'.exec scope body id) "" (first :: rest))
          fun text _ => π.text text :=
        Triple.appendAll hπ.text_append (fun _ _ => hπ.text_empty) hbody
      dsimp only
      split
      · -- all iterations at once
        refine (Triple.join ?_ hbody |>.of_pre hsite).map fun texts _ _ htexts =>
          text_join hπ htexts
        exact fun v u hstate hmay hfrozen h id hid =>
          ⟨hπ.shared hstate hmay hfrozen (h id hid).1, (h id hid).2⟩
      · exact hinTurn.of_pre hsite

/-! ### Assignments -/

theorem assignTo_follows {v : Value} {targets : List Node}
    (hv : ∀ w, pre w → v.Admitted π)
    (hnames : ∀ n ∈ targets, ∀ w, pre w → π.Expects .name n)
    (hwrite : ∀ name ∈ targets.filterMap Node.asSymbol?, ∀ w, pre w → w.MayBind true frame name ∧
      (w.state.frames.isTopLevel frame = true → w.MayPublish true scope.context name)) :
    π.Triple pre (assignTo scope frame v targets) (assignTo scope frame v targets)
      fun _ _ => True := by
  induction targets generalizing pre with
  | nil => exact Triple.pure fun _ _ => trivial
  | cons target rest ih =>
      unfold assignTo
      split
      · rename_i heq
        cases heq
      · rename_i p name rest' heq
        cases heq
        have hname : name ∈ (Node.symbol p name :: rest).filterMap Node.asSymbol? := by
          simp [Node.asSymbol?]
        refine (Triple.scopeBind true true hv (fun w hw => (hwrite name hname w hw).1)
          fun w hw => (hwrite name hname w hw).2).bind fun _ => ?_
        refine ih (fun w hw => hv w hw.1)
          (fun n hn w hw => hnames n (List.mem_cons_of_mem _ hn) w hw.1)
          fun x hx w hw => hwrite x ?_ w hw.1
        rw [List.filterMap_cons]
        exact List.mem_cons_of_mem _ hx
      · rename_i n rest' hsymbol heq
        obtain ⟨rfl, rfl⟩ := List.cons.inj heq
        refine Triple.fail fun w hw => (hnames target List.mem_cons_self w hw).cause ?_ rfl
        cases target with
        | symbol p name => exact (hsymbol p name rfl).elim
        | _ => rfl

theorem assign_follows (hπ : π.Lawful σ env) (hev : Evaluator.Follows π σ ev ev') {p : Position}
    {targets : List Node} {value body : Option Node} :
    π.Triple (σ.site scope frame (.assign p targets value body))
      (assign ev scope targets value body frame) (assign ev' scope targets value body frame)
      fun _ _ => True := by
  have hparts : ∀ {r : Node.Role} {c : Node}, (r, c) ∈ (Node.assign p targets value body).parts →
      ∀ w, σ.site scope frame (.assign p targets value body) w →
        σ.site scope frame c w ∧ π.Expects r c := fun hc w hw =>
    ⟨hπ.child hw rfl (Node.mem_children_of_mem_parts hc), hπ.expects hw hc⟩
  have hto : ∀ v : Value, π.Triple
      (fun w => σ.site scope frame (.assign p targets value body) w ∧ v.Admitted π)
      (assignTo scope frame v targets) (assignTo scope frame v targets) fun _ _ => True :=
    fun v => assignTo_follows (fun w hw => hw.2)
      (fun n hn w hw => (hparts (by simp [Node.parts, Node.eachAs, hn]) w hw.1).2)
      fun name hname w hw => hπ.write hw.1 hname
  unfold assign
  dsimp only
  split
  · refine ((hev.eval scope _ frame).of_pre fun w hw => hπ.evaluates hw rfl ?_).bind hto
    simp [Node.parts, Node.eachAs]
  · rename_i n
    refine ((hev.eval scope n frame).of_pre fun w hw => ?_).bind hto
    obtain ⟨hsite, hcapture⟩ := hparts (r := .capture) (c := n)
      (by simp [Node.parts, Node.eachAs]) w hw
    exact ⟨hsite, hcapture.imp id Node.plays_argument_of_capture⟩
  · exact Triple.bind (Triple.pure fun _ _ => .plain rfl) hto

/-- A macro is declared and bound to its name. -/
theorem define_follows (hπ : π.Lawful σ env) {p : Position} {name : String}
    {parameters body : Node} :
    π.Triple (σ.site scope frame (.definition p .named name parameters body))
      (define scope name parameters body frame) (define scope name parameters body frame)
      fun _ _ => True := by
  unfold define
  refine (declare_follows fun number w hw => hπ.declares hw).bind fun declared => ?_
  have hname : name ∈ (Node.definition p .named name parameters body).bound :=
    List.mem_singleton_self name
  refine Triple.scopeBind false true ?_ (fun w hw => (hπ.write hw.1 hname).1)
    fun w hw => (hπ.write hw.1 hname).2
  exact fun w hw => .callable hw.2 (fun _ h => by cases h) fun _ h => by cases h

/-! ### Blocks -/

/-- A definition of a block runs in a frame of its own. -/
theorem runBlock_follows (hb : π.Inherits σ) (hev : Evaluator.Follows π σ ev ev') {n : Node}
    {definition : BlockDef} (hsite : ∀ w, pre w → σ.site scope frame n w)
    (hblock : ∀ w, pre w → π.block definition) :
    π.Triple pre (runBlock ev scope definition frame) (runBlock ev' scope definition frame)
      fun text _ => π.text text := by
  unfold runBlock
  refine (Triple.create _ _ _).bind fun inner => ?_
  refine (Triple.newFrame fun _ _ => .nil).bind fun id => ?_
  refine ((hev.exec inner definition.body id).throughTemplate _).of_pre ?_
  rintro w ⟨⟨hpre, hcontext, hpath, hdefinition, hmay, _⟩, hmade⟩
  exact hb.block (hsite w hpre) (hblock w hpre) hmade hcontext hpath hdefinition hmay

/-- A context is read. -/
theorem context_follows {Q : Context → Prop}
    (h : ∀ w : World, π.Sound w.state → Q ((w.state.contexts[scope.context]?).getD default)) :
    π.Triple pre (Action.context scope.context) (Action.context scope.context) fun c _ => Q c :=
  Triple.read fun w _ hs _ => .of_forall fun _ => h w hs

theorem block_follows (hπ : π.Lawful σ env) (hb : π.Inherits σ) (hev : Evaluator.Follows π σ ev ev')
    {name : String} {n : Node} :
    π.Triple (σ.site scope frame n) (block ev scope name frame) (block ev' scope name frame)
      fun text _ => π.text text := by
  have hrun : π.Triple (σ.site scope frame n)
      (do let definition ← Action.ofExcept ((← Action.context scope.context).block name)
          runBlock ev scope definition frame)
      (do let definition ← Action.ofExcept ((← Action.context scope.context).block name)
          runBlock ev' scope definition frame) fun text _ => π.text text := by
    -- the definition is one of those in the context, of all of which the policy holds
    refine Triple.bind (context_follows (Q := fun c => ∀ b ∈ c.entries name, π.block b)
      fun w hs => hs.entries scope.context name) fun c => ?_
    refine Triple.bind (m := fun b _ => π.block b) (Triple.ofExcept ?_ ?_) fun b => ?_
    · intro b hb w hw
      unfold Context.block at hb
      split at hb
      · rename_i d hd
        cases hb
        exact hw.2 b (List.mem_of_head? hd)
      · cases hb
    · intro e he w _
      unfold Context.block at he
      split at he
      · cases he
      · cases he
        exact hπ.tolerant _ rfl
    · exact runBlock_follows hb hev (fun w hw => hw.1.1) fun w hw => hw.2
  unfold block
  refine Triple.bind (m := fun _ _ => True) ?_ fun parent => ?_
  · exact Triple.read fun _ _ _ _ => .of_forall fun _ => trivial
  · split
    · exact Triple.pure fun _ _ => hπ.text_empty
    · exact hrun.of_pre fun _ hw => hw.1

theorem overridden_follows (hπ : π.Lawful σ env) (hb : π.Inherits σ)
    (hev : Evaluator.Follows π σ ev ev') {p : Position} {name : String} {target : Node} :
    π.Triple (σ.site scope frame (.overridden p name target))
      (overridden ev scope name target frame) (overridden ev' scope name target frame)
      fun _ _ => True := by
  unfold overridden
  split
  · rename_i hblock
    exact Triple.fail fun w hw => (hb.overrides hw).2 hblock
  · rename_i current _
    refine Triple.bind (context_follows (Q := fun c => ∀ b ∈ c.entries name, π.block b)
      fun w hs => hs.entries scope.context name) fun c => ?_
    refine Triple.bind (m := fun b _ => π.block b) (Triple.ofExcept ?_ ?_) fun b => ?_
    · intro b hb w hw
      unfold Context.overridden at hb
      split at hb
      · rename_i d hd
        cases hb
        exact hw.2 b ((List.dropWhile_sublist _).subset (List.mem_of_getElem? hd))
      · cases hb
    · intro e he w _
      unfold Context.overridden at he
      split at he
      · cases he
      · cases he
        exact hπ.tolerant _ rfl
    · refine (runBlock_follows hb hev (fun w hw => hw.1.1) fun w hw => hw.2).bind fun out => ?_
      split
      · rename_i x hx
        exact Triple.setName false (fun w hw => .safe hw.2)
          fun w hw => (hb.overrides hw.1.1.1).1 x hx
      · exact Triple.pure fun _ _ => trivial

/-! ### Other templates -/

theorem templateName_follows (hπ : π.Lawful σ env) (hev : Evaluator.Follows π σ ev ev') {n : Node}
    (hn : ∀ w, pre w → π.Evaluates σ scope frame n w) :
    π.Triple pre (templateName ev scope n frame) (templateName ev' scope n frame)
      fun _ _ => True := by
  unfold templateName
  refine ((hev.eval scope n frame).of_pre hn).bind fun v => ?_
  split
  · exact Triple.pure fun _ _ => trivial
  · exact Triple.fail fun _ _ => hπ.tolerant _ rfl

/-- A template runs in a context of its own. -/
theorem template_follows (hπ : π.Lawful σ env) (hev : Evaluator.Follows π σ ev ev') {id : TemplateId}
    {bindings : Bindings} (hbindings : ∀ w, pre w → Bindings.Admitted π bindings)
    (hroot : ∀ context w, pre w → w.MadeContext context → σ.root context frame w) :
    π.Triple pre (template env ev id bindings frame) (template env ev' id bindings frame)
      fun r _ => π.text r.1 := by
  unfold template
  refine (hπ.compile id).bind fun compiled => ?_
  refine (Triple.newContext fun w hw => ⟨hπ.globals, hbindings w hw.1, ?_⟩).bind
    fun context => ?_
  · intro entry hentry block hblock
    obtain ⟨b, hb, rfl⟩ := List.mem_map.1 (Named.mem_of_mem_ofList hentry)
    rw [List.mem_singleton.1 hblock]
    exact hw.2 b hb
  · refine ((hev.root id context frame []).of_pre fun w hw =>
      hroot context w hw.1.1 hw.2).bind fun out => ?_
    exact Triple.pure fun w hw => hw.2

theorem bindings_follows :
    π.Triple pre scope.bindings scope.bindings fun bindings _ => Bindings.Admitted π bindings :=
  (context_follows fun _ hs => (hs.context scope.context).2).bind fun _ =>
    Triple.pure fun _ hw => hw.2

/-- The output of another template. -/
theorem embed_follows (hπ : π.Lawful σ env) (hev : Evaluator.Follows π σ ev ev') {p : Position}
    {n : Node} {ignoreMissing : Bool} :
    π.Triple (σ.site scope frame (.embed p n ignoreMissing))
      (embed env ev scope n ignoreMissing frame) (embed env ev' scope n ignoreMissing frame)
      fun text _ => π.text text := by
  unfold embed
  refine (templateName_follows hπ hev fun w hw =>
    hπ.evaluates hw rfl List.mem_cons_self).bind fun name => ?_
  refine (hπ.load name _ ignoreMissing).bind fun id => ?_
  cases id with
  | none => exact Triple.pure fun _ _ => hπ.text_empty
  | some id =>
      refine (Triple.newFrame fun _ _ => .nil).bind fun inner => ?_
      refine bindings_follows.bind fun bindings => ?_
      refine (template_follows hπ hev (fun w hw => hw.2) ?_).bind fun r => ?_
      · rintro context w ⟨⟨⟨⟨hsite, _⟩, _⟩, hmade⟩, _⟩ hcontext
        exact hπ.root hsite hcontext hmade rfl (.inr rfl)
      · exact Triple.pure fun w hw => hw.2

theorem withScope_admitted {bindings : Bindings} {v : Value} (hb : Bindings.Admitted π bindings)
    (hv : v.Admitted π) : (withScope bindings v).Admitted π := by
  unfold withScope
  split
  · obtain ⟨hdeclared, hclosure, _⟩ := hv.callableParts
    refine .callable hdeclared hclosure fun b h => ?_
    split at h
    · cases h
    · cases h
      exact hb
  · exact hv

/-- The names that another template offers. -/
theorem exports_follows (hπ : π.Lawful σ env) (hev : Evaluator.Follows π σ ev ev') {n t : Node}
    {withContext : Bool} (ht : t.isApart = false) (hn : (.value, n) ∈ t.parts) :
    π.Triple (σ.site scope frame t) (exports env ev scope n withContext frame)
      (exports env ev' scope n withContext frame)
      fun bindings _ => Bindings.Admitted π bindings := by
  -- the template runs in a frame made for it, a border, and what it offers comes from its own context
  have hrun : ∀ (id : TemplateId) (bindings : Bindings) (inner : FrameId),
      π.Triple (fun w => σ.site scope frame t w ∧ Bindings.Admitted π bindings ∧
          ∃ f, w.Made (fun _ => False) inner f ∧ f.topLevel = true ∧
            (f.parent = none ∨ f.isolated = true))
        (do let r ← template env ev id bindings inner
            let context ← Action.context r.2
            return context.exports.map fun m => (m.1, withScope context.bindings m.2))
        (do let r ← template env ev' id bindings inner
            let context ← Action.context r.2
            return context.exports.map fun m => (m.1, withScope context.bindings m.2))
        fun bindings _ => Bindings.Admitted π bindings := by
    intro id bindings inner
    refine Triple.bind (template_follows hπ hev (fun w hw => hw.2.1) ?_) fun r => ?_
    · rintro context w ⟨hsite, _, f, hmade, htop, hborder⟩ hcontext
      exact hπ.root hsite hcontext hmade htop hborder
    · refine Triple.bind (m := fun c _ => Bindings.Admitted π c.bindings ∧
        Bindings.Admitted π c.exports) ?_ fun c => ?_
      · exact Triple.read fun w _ hs _ => .of_forall fun _ =>
          ⟨(hs.context r.2).2, hs.exports r.2⟩
      · refine Triple.pure fun w hw m hm => ?_
        obtain ⟨m', hm', rfl⟩ := List.mem_map.1 hm
        exact withScope_admitted hw.2.1 (hw.2.2 m' hm')
  unfold exports
  refine (templateName_follows hπ hev fun w hw => hπ.evaluates hw ht hn).bind fun name => ?_
  refine (hπ.loadRequired name _).bind fun id => ?_
  cases withContext with
  | true =>
      refine (Triple.newFrame fun _ _ => .nil).bind fun inner => ?_
      refine bindings_follows.bind fun bindings => ?_
      exact (hrun id bindings inner).of_pre fun w hw =>
        ⟨hw.1.1.1.1, hw.2, _, hw.1.2, rfl, .inr rfl⟩
  | false =>
      refine (Triple.newFrame fun _ _ => .nil).bind fun inner => ?_
      exact (hrun id [] inner).of_pre fun w hw => ⟨hw.1.1.1, .nil, _, hw.2, rfl, .inl rfl⟩

theorem bindImports_follows (hπ : π.Lawful σ env) {exports : Bindings} {names : List ImportName}
    (hexports : ∀ w, pre w → Bindings.Admitted π exports)
    (hwrite : ∀ name ∈ names.map fun name => name.newName.getD name.name, ∀ w, pre w →
      w.MayBind false frame name ∧
        (w.state.frames.isTopLevel frame = true → w.MayPublish false scope.context name)) :
    π.Triple pre (bindImports scope exports frame names) (bindImports scope exports frame names)
      fun _ _ => True := by
  induction names generalizing pre with
  | nil => exact Triple.pure fun _ _ => trivial
  | cons name rest ih =>
      unfold bindImports
      split
      · exact Triple.fail fun _ _ => hπ.tolerant _ rfl
      · rename_i v hv
        have hname := hwrite (name.newName.getD name.name) (by simp)
        refine (Triple.scopeBind false false (fun w hw => (hexports w hw).get? hv)
          (fun w hw => (hname w hw).1) fun w hw => (hname w hw).2).bind fun _ => ?_
        refine ih (fun w hw => hexports w hw.1) fun x hx w hw => hwrite x ?_ w hw.1
        rw [List.map_cons]
        exact List.mem_cons_of_mem _ hx

/-! ### Statements -/

theorem silently_follows (hπ : π.Lawful σ env) {x x' : Action Unit}
    (h : π.Triple pre x x' fun _ _ => True) :
    π.Triple pre (silently x) (silently x') fun text _ => π.text text :=
  h.bind fun _ => Triple.pure fun _ _ => hπ.text_empty

/-- A statement that no inheritance is involved in. -/
theorem execute_follows (hπ : π.Lawful σ env) (hev : Evaluator.Follows π σ ev ev') {n : Node}
    (hn : n.inherits = false) :
    π.Triple (π.Runs σ scope frame n) (execute env ev scope n frame) (execute env ev' scope n frame)
      fun text _ => π.text text := by
  -- the parts of a node that is not declared apart run where the node does
  have hrun : ∀ {c : Node}, n.isApart = false → (.statement, c) ∈ n.parts →
      ∀ w, π.Runs σ scope frame n w → π.Runs σ scope frame c w :=
    fun hn hc w hw => hπ.runs hw.1 hn hc
  have hvalue : ∀ {c : Node}, n.isApart = false → (.value, c) ∈ n.parts →
      ∀ w, π.Runs σ scope frame n w → π.Evaluates σ scope frame c w :=
    fun hn hc w hw => hπ.evaluates hw.1 hn hc
  have hbare : n.isStatement = false → π.Triple (π.Runs σ scope frame n)
      (bareExpression env ev scope n frame) (bareExpression env ev' scope n frame)
      fun text _ => π.text text := fun hstatement =>
    (bareExpression_follows hπ hev n).of_pre fun w hw =>
      ⟨hw.1, hw.2.imp id (Node.plays_argument_of_member hstatement)⟩
  cases n with
  | group kind p members =>
      cases kind with
      | root =>
          exact Triple.appendAll hπ.text_append (fun _ _ => hπ.text_empty) fun m hm =>
            (hev.exec scope m frame).of_pre (hrun rfl (List.mem_map.2 ⟨m, hm, rfl⟩))
      | sequence =>
          refine Triple.appendAll hπ.text_append (fun _ _ => hπ.text_empty) fun m hm =>
            (hev.exec scope m frame).of_pre fun w hw => ?_
          exact ⟨hπ.member hw.1 hm, hπ.expects hw.1 (List.mem_map.2 ⟨m, hm, rfl⟩)⟩
      | output =>
          refine Triple.appendAll hπ.text_append (fun _ _ => hπ.text_empty) fun m hm =>
            outputMember_follows hπ hev fun w hw => ?_
          exact ⟨hπ.member hw.1 hm, hπ.expects hw.1 (List.mem_map.2 ⟨m, hm, rfl⟩)⟩
      | array | dict | keywords => exact hbare rfl
  | text p content => exact Triple.pure fun w hw => hπ.content hw.1
  | branch p suspends condition body otherwise =>
      refine branch_follows hπ hev (hvalue rfl List.mem_cons_self)
        (hrun rfl (List.mem_cons_of_mem _ List.mem_cons_self)) fun m hm => ?_
      exact hrun rfl (by simp [Node.parts, Node.eachAs, hm])
  | loop p mode source target body otherwise =>
      exact (loop_follows hπ hev).of_pre fun w hw => hw.1
  | assign p targets value body =>
      exact silently_follows hπ ((assign_follows hπ hev).of_pre fun w hw => hw.1)
  | definition p role name parameters body =>
      cases role with
      | named => exact silently_follows hπ ((define_follows hπ).of_pre fun w hw => hw.1)
      | caller => exact hbare rfl
  | block _ _ _ | overridden _ _ _ | extend _ _ => cases hn
  | embed p n ignoreMissing => exact (embed_follows hπ hev).of_pre fun w hw => hw.1
  | importAll p n target withContext =>
      refine silently_follows hπ (((exports_follows hπ hev rfl List.mem_cons_self).of_pre
        fun w hw => hw.1).bind fun exports => ?_)
      have htarget : target ∈ (Node.importAll p n target withContext).bound :=
        List.mem_singleton_self target
      exact Triple.scopeBind false false (fun w hw => .map hw.2)
        (fun w hw => (hπ.write hw.1.1 htarget).1) fun w hw => (hπ.write hw.1.1 htarget).2
  | importNames p n names withContext =>
      refine silently_follows hπ (((exports_follows hπ hev rfl List.mem_cons_self).of_pre
        fun w hw => hw.1).bind fun exports => ?_)
      exact bindImports_follows hπ (fun w hw => hw.2) fun name hname w hw => hπ.write hw.1.1 hname
  | tagCall p tag args content => exact tagOutput_follows hπ
  | bind p call target =>
      refine silently_follows hπ (((hev.eval scope call frame).of_pre
        (hvalue rfl List.mem_cons_self)).bind fun v => ?_)
      split
      · rename_i name hname
        refine Triple.setName false (fun w hw => hw.2) fun w hw => (hπ.write hw.1.1 ?_).1
        simp [Node.bound, hname]
      · exact Triple.pure fun _ _ => trivial
  | capture _ _ | literal _ _ | symbol _ _ | pair _ _ _ | binary _ _ _ _ | unary _ _ _
  | compare _ _ _ | operand _ _ _ | choice _ _ _ _ | lookup _ _ _ | slice _ _ _ _ | call _ _ _
  | filter _ _ _ => exact hbare rfl

/-- The template that the running one extends. -/
theorem extend_follows (hπ : π.Lawful σ env) (hb : π.Inherits σ) (hev : Evaluator.Follows π σ ev ev')
    {p : Position} {n : Node} :
    π.Triple (σ.site scope frame (.extend p n)) (extend env ev scope n frame)
      (extend env ev' scope n frame) fun _ _ => True := by
  unfold extend
  refine (templateName_follows hπ hev fun w hw =>
    hπ.evaluates hw rfl List.mem_cons_self).bind fun name => ?_
  refine (hπ.loadRequired name _).bind fun parent => ?_
  refine (hπ.compile parent).bind fun compiled => ?_
  refine (Triple.addBlocks fun w hw => ⟨hw.2, (hb.extend hw.1.1.1).1⟩).bind fun _ => ?_
  exact Triple.setExtended fun w hw => (hb.extend hw.1.1.1.1).2

/-- A block, an overridden block or an extended template. -/
theorem inheritance_follows (hπ : π.Lawful σ env) (hb : π.Inherits σ)
    (hev : Evaluator.Follows π σ ev ev') {n : Node} (hn : n.inherits = true) :
    π.Triple (π.Runs σ scope frame n) (execute env ev scope n frame) (execute env ev' scope n frame)
      fun text _ => π.text text := by
  cases n with
  | block p name body => exact (block_follows hπ hb hev).of_pre fun w hw => hw.1
  | overridden p name target =>
      exact silently_follows hπ ((overridden_follows hπ hb hev).of_pre fun w hw => hw.1)
  | extend p n => exact silently_follows hπ ((extend_follows hπ hb hev).of_pre fun w hw => hw.1)
  | _ => cases hn

end Stencil.Render
