/-
**Statements in two runs.**

Main results:

* `Stencil.Render.loop_mirrored` — loops, with their iterations one after the other or at once;
* `Stencil.Render.block_mirrored`, `Stencil.Render.overridden_mirrored` — blocks;
* `Stencil.Render.embed_mirrored`, `Stencil.Render.exports_mirrored` — other templates;
* `Stencil.Render.execute_mirrored` — **statements of one kind** with related parts.
-/

import Stencil.Proofs.Mirror.Expressions

set_option autoImplicit false

namespace Stencil.Render

variable {M : Mirror} {T : TemplateId → Prop} {env env' : Environment} {ev ev' : Evaluator}
  {w : M.World}
  {scope scope' : Scope} {n n' : Node} {id id' : FrameId}

open Mirror

/-! ### Outputs -/

/-- A member that is not looked into is evaluated. -/
theorem outputMember_of_unseen (hn : n.isSeen = false) :
    outputMember env ev scope id n = (do
      let v ← ev.eval scope n id
      Action.located n.position (Action.ofExcept (written env.config v))) := by
  cases n <;> first | rfl | cases hn

theorem outputMember_mirrored (hM : M.Serves env env' T) (hev : Evaluator.Mirrored M ev ev' T)
    (hscope : Scope.Alike M.node scope scope') (hid : M.frame w id id') (hn : M.node n n') :
    M.Acts w (outputMember env ev scope id n) (outputMember env' ev' scope' id' n') M.Equal := by
  have hvalue : M.Acts w
      (do
        let v ← ev.eval scope n id
        Action.located n.position (Action.ofExcept (written env.config v)))
      (do
        let v ← ev'.eval scope' n' id'
        Action.located n'.position (Action.ofExcept (written env'.config v))) M.Equal :=
    (hev.eval hscope hn hid).bind fun _ _ _ _ hv => (hM.written hv).located (M.position hn)
  rcases M.faithful _ _ hn with hlike | ⟨h, h'⟩
  · cases hlike with
    | text => exact .pure fun _ _ => rfl
    | _ => exact hvalue
  · rw [outputMember_of_unseen h, outputMember_of_unseen h']
    exact hvalue

theorem bareExpression_mirrored (hM : M.Serves env env' T) (hev : Evaluator.Mirrored M ev ev' T)
    (hscope : Scope.Alike M.node scope scope') (hid : M.frame w id id') (hn : M.node n n') :
    M.Acts w (bareExpression env ev scope n id) (bareExpression env' ev' scope' n' id')
      M.Equal :=
  (hev.eval hscope hn hid).bind fun _ _ _ _ hv => hM.written hv

theorem tagOutput_mirrored (hM : M.Serves env env' T) (hev : Evaluator.Mirrored M ev ev' T)
    (hscope : Scope.Alike M.node scope scope') (hid : M.frame w id id') (tag : TagCall)
    (hn : M.node n n') {content content' : List Node}
    (hcontent : List.Forall₂ M.node content content') :
    M.Acts w (tagOutput env ev scope tag n content id)
      (tagOutput env' ev' scope' tag n' content' id') M.Equal := by
  refine (callTag_mirrored hM hev hscope tag hn hcontent hid).bind fun u v v' _ hv => ?_
  have htext : ∀ {v v' : Value}, v.Alike M.node v' → M.Acts u
      (if tag.autoescape && env.config.autoescape then pure (Escape.html v.text) else pure v.text)
      (if tag.autoescape && env'.config.autoescape then pure (Escape.html v'.text)
        else pure v'.text) M.Equal := by
    intro v v' hv
    rw [hM.autoescape, hv.text]
    split <;> exact .pure fun _ _ => rfl
  have hwritten := htext hv
  cases hv with
  | flat h => cases v <;> first | exact .pure fun _ _ => rfl | exact hwritten
  | array | map | callable => exact hwritten

/-! ### Conditions and loops -/

theorem branch_mirrored (hev : Evaluator.Mirrored M ev ev' T)
    (hscope : Scope.Alike M.node scope scope') (hid : M.frame w id id') {body body' : Node}
    {otherwise otherwise' : Option Node} (hn : M.node n n') (hbody : M.node body body')
    (hotherwise : Option.Rel M.node otherwise otherwise') :
    M.Acts w (branch ev scope n body otherwise id) (branch ev' scope' n' body' otherwise' id')
      M.Equal := by
  refine (hev.eval hscope hn hid).bind fun u v v' hu hv => ?_
  rw [hv.isTruthy]
  split
  · exact hev.exec hscope hbody (M.frame_le hu hid)
  · cases hotherwise with
    | none => exact .pure fun _ _ => rfl
    | some hn => exact hev.exec hscope hn (M.frame_le hu hid)

/-- The frames of the iterations of a loop, before they are made. -/
def iterationFrames (ev : Evaluator) (scope : Scope) (source target : Node) (frame : FrameId) :
    Action (List Frame) := do
  let v ← ev.eval scope source frame
  match loopItems? (loopNames target).length v with
  | none => Action.located source.position (Action.fail (.notIterable v.typeName))
  | some items =>
    let all ← Action.ofExcept (allLoopBindings (loopNames target) items)
    return all.map fun bindings => ⟨bindings, some frame, false, false⟩

theorem loopFrames_eq (source target : Node) (frame : FrameId) :
    loopFrames ev scope source target frame =
      iterationFrames ev scope source target frame >>= Action.newFrames := by
  unfold loopFrames iterationFrames
  rw [Action.bind_assoc]
  congr 1
  funext v
  dsimp only
  cases loopItems? (loopNames target).length v with
  | none => rfl
  | some items =>
      dsimp only
      cases allLoopBindings (loopNames target) items <;> rfl

/-- What a loop does with its frames.  If there are none, something else may run instead. -/
def goThrough (ev : Evaluator) (go : List FrameId → Action String) (scope : Scope)
    (otherwise : Option Node) (frame : FrameId) : List FrameId → Action String
  | [] =>
    match otherwise with
    | some n => ev.exec scope n frame
    | none => pure ""
  | id :: ids => go (id :: ids)

/-- A loop that goes through its frames in some way. -/
def loopBy (ev : Evaluator) (go : List FrameId → Action String) (scope : Scope)
    (source target : Node) (otherwise : Option Node) (frame : FrameId) : Action String :=
  loopFrames ev scope source target frame >>= goThrough ev go scope otherwise frame

/-- The iterations of a loop, at once or one after the other. -/
def iterate (ev : Evaluator) (scope : Scope) (mode : LoopMode) (body : Node)
    (frames : List FrameId) : Action String :=
  match mode with
  | .all => String.join <$> Action.join (frames.map fun frame => ev.exec scope body frame)
  | _ => Action.appendAll (fun frame => ev.exec scope body frame) "" frames

theorem loop_eq_loopBy (mode : LoopMode) (source target body : Node) (otherwise : Option Node)
    (frame : FrameId) : loop ev scope mode source target body otherwise frame =
      loopBy ev (iterate ev scope mode body) scope source target otherwise frame := by
  unfold loop loopBy
  congr 1
  funext frames
  cases frames <;> cases mode <;> rfl

theorem iterationFrames_mirrored (hev : Evaluator.Mirrored M ev ev' T)
    (hscope : Scope.Alike M.node scope scope') (hid : M.frame w id id') {target target' : Node}
    (hn : M.node n n') (htarget : M.node target target') :
    M.Acts w (iterationFrames ev scope n target id) (iterationFrames ev' scope' n' target' id')
      fun v => List.Forall₂ (M.Frames v) := by
  refine (hev.eval hscope hn hid).bind fun u v v' hu hv => ?_
  rw [M.faithful.loopNames htarget, hv.typeName]
  have hitems := hv.loopItems? (loopNames target).length
  generalize loopItems? (loopNames target).length v = o,
    loopItems? (loopNames target).length v' = o' at hitems
  cases hitems with
  | none => exact (Acts.fail _).located (M.position hn)
  | some hitems =>
      refine (Acts.ofAnswers (Value.allLoopBindings hitems)).bind fun t all all' ht hall =>
        .pure fun r hr => ?_
      have hparent := M.frame_le (M.trans hu (M.trans ht hr)) hid
      rw [List.forall₂_map_left_iff, List.forall₂_map_right_iff]
      exact hall.imp fun _ _ hb => ⟨hb, .some hparent, rfl, rfl⟩

/-- The frames of the iterations of a loop. -/
theorem loopFrames_mirrored (hM : M.Store T) (hev : Evaluator.Mirrored M ev ev' T)
    (hscope : Scope.Alike M.node scope scope') (hid : M.frame w id id') {target target' : Node}
    (hn : M.node n n') (htarget : M.node target target') :
    M.Acts w (loopFrames ev scope n target id) (loopFrames ev' scope' n' target' id')
      fun v => List.Forall₂ (M.frame v) := by
  rw [loopFrames_eq, loopFrames_eq]
  exact (iterationFrames_mirrored hev hscope hid hn htarget).bind fun _ _ _ _ h => hM.newFrames h

/-- Two loops that go through their frames alike. -/
theorem loopBy_mirrored (hM : M.Store T) (hev : Evaluator.Mirrored M ev ev' T)
    (hscope : Scope.Alike M.node scope scope') (hid : M.frame w id id')
    {target target' : Node} {otherwise otherwise' : Option Node} (hn : M.node n n')
    (htarget : M.node target target') (hotherwise : Option.Rel M.node otherwise otherwise')
    {go go' : List FrameId → Action String} (hgo : ∀ u frames frames', M.le w u →
      List.Forall₂ (M.frame u) frames frames' → M.Acts u (go frames) (go' frames') M.Equal) :
    M.Acts w (loopBy ev go scope n target otherwise id)
      (loopBy ev' go' scope' n' target' otherwise' id') M.Equal := by
  refine (loopFrames_mirrored hM hev hscope hid hn htarget).bind
    fun u frames frames' hu hframes => ?_
  cases hframes with
  | nil =>
      cases hotherwise with
      | none => exact .pure fun _ _ => rfl
      | some hn => exact hev.exec hscope hn (M.frame_le hu hid)
  | cons hframe hrest => exact hgo u _ _ hu (.cons hframe hrest)

/-- Iterations one after the other, where what counts as that may have different names. -/
theorem iterate_mirrored (hev : Evaluator.Mirrored M ev ev' T)
    (hscope : Scope.Alike M.node scope scope') {mode mode' : LoopMode} (hmode : mode ≠ .all)
    (hmode' : mode' ≠ .all) (hn : M.node n n') {frames frames' : List FrameId}
    (hframes : List.Forall₂ (M.frame w) frames frames') :
    M.Acts w (iterate ev scope mode n frames) (iterate ev' scope' mode' n' frames') M.Equal := by
  have hall : M.Acts w (Action.appendAll (fun c => ev.exec scope n c) "" frames)
      (Action.appendAll (fun c => ev'.exec scope' n' c) "" frames') M.Equal :=
    Acts.appendAll hframes (fun _ _ hc => hev.exec hscope hn hc) ""
  cases mode <;> cases mode' <;> first | exact hall | contradiction

/-- Iterations at once, if such actions give related results. -/
theorem iterate_all_mirrored (hev : Evaluator.Mirrored M ev ev' T)
    (hscope : Scope.Alike M.node scope scope') (hn : M.node n n') {frames frames' : List FrameId}
    (hframes : List.Forall₂ (M.frame w) frames frames')
    (hjoin : ∀ {xs xs' : List (Action String)}, List.Forall₂ (fun x x' => M.Acts w x x' M.Equal) xs xs' →
      M.Acts w (Action.join xs) (Action.join xs') M.Equal) :
    M.Acts w (iterate ev scope .all n frames) (iterate ev' scope' .all n' frames') M.Equal := by
  have hactions : List.Forall₂ (fun x x' => M.Acts w x x' M.Equal)
      (frames.map (ev.exec scope n)) (frames'.map (ev'.exec scope' n')) :=
    List.forall₂_map_left_iff.2 (List.forall₂_map_right_iff.2
      (hframes.imp fun _ _ hc => hev.exec hscope hn hc))
  exact (hjoin hactions).bind fun _ texts texts' _ htexts =>
    .pure fun _ _ => congrArg String.join htexts

/-- A loop. -/
theorem loop_mirrored (hM : M.Store T) (hev : Evaluator.Mirrored M ev ev' T)
    (hscope : Scope.Alike M.node scope scope') (hid : M.frame w id id') {mode : LoopMode}
    {target target' body body' : Node} {otherwise otherwise' : Option Node}
    (hn : M.node n n') (htarget : M.node target target') (hbody : M.node body body')
    (hotherwise : Option.Rel M.node otherwise otherwise')
    (hjoin : mode = .all → ∀ {w} {xs xs' : List (Action String)},
      List.Forall₂ (fun x x' => M.Acts w x x' M.Equal) xs xs' →
        M.Acts w (Action.join xs) (Action.join xs') M.Equal) :
    M.Acts w (loop ev scope mode n target body otherwise id)
      (loop ev' scope' mode n' target' body' otherwise' id') M.Equal := by
  rw [loop_eq_loopBy, loop_eq_loopBy]
  refine loopBy_mirrored hM hev hscope hid hn htarget hotherwise fun u frames frames' _ hframes => ?_
  by_cases hmode : mode = .all
  · subst hmode
    exact iterate_all_mirrored hev hscope hbody hframes (hjoin rfl)
  · exact iterate_mirrored hev hscope hmode hmode hbody hframes

/-! ### Assignments -/

theorem assignTo_mirrored (hM : M.Store T) (hscope : Scope.Alike M.node scope scope')
    (hid : M.frame w id id') {v v' : Value} (hv : v.Alike M.node v') {ns ns' : List Node}
    (hns : List.Forall₂ M.node ns ns') :
    M.Acts w (assignTo scope id v ns) (assignTo scope' id' v' ns') M.Any := by
  have hfail : ∀ (scope : Scope) (id : FrameId) (v : Value) (m : Node) (rest : List Node),
      m.isSeen = false → assignTo scope id v (m :: rest) = Action.fail .setTarget := by
    intro scope id v m rest hm
    cases m <;> first | rfl | cases hm
  induction hns generalizing w with
  | nil => exact .pure fun _ _ => trivial
  | cons hn _ ih =>
      rcases M.faithful _ _ hn with hlike | ⟨h, h'⟩
      · cases hlike with
        | symbol =>
            exact (Scope.bind_mirrored hM hscope hid hv _ true true).bind fun u _ _ hu _ =>
              ih (M.frame_le hu hid)
        | _ => exact .fail _
      · rw [hfail _ _ _ _ _ h, hfail _ _ _ _ _ h']
        exact .fail _

theorem assign_mirrored (hM : M.Store T) (hev : Evaluator.Mirrored M ev ev' T)
    (hscope : Scope.Alike M.node scope scope') (hid : M.frame w id id') {ns ns' : List Node}
    (hns : List.Forall₂ M.node ns ns') {value value' body body' : Option Node}
    (hvalue : Option.Rel M.node value value') (hbody : Option.Rel M.node body body') :
    M.Acts w (assign ev scope ns value body id) (assign ev' scope' ns' value' body' id')
      M.Any := by
  have hassign : ∀ u v v', M.le w u → v.Alike M.node v' →
      M.Acts u (assignTo scope id v ns) (assignTo scope' id' v' ns') M.Any :=
    fun u v v' hu hv => assignTo_mirrored hM hscope (M.frame_le hu hid) hv hns
  unfold assign
  cases hvalue with
  | some hn => exact (hev.eval hscope hn hid).bind hassign
  | none =>
      cases hbody with
      | some hn => exact (hev.eval hscope hn hid).bind hassign
      | none => exact hassign w _ _ (M.refl w) (.flat rfl)

theorem define_mirrored (hM : M.Store T) (hscope : Scope.Alike M.node scope scope')
    (hid : M.frame w id id') (name : String) (hn : M.node n n') {body body' : Node}
    (hbody : M.node body body') :
    M.Acts w (define scope name n body id) (define scope' name n' body' id') M.Any :=
  (declare_mirrored hM hscope .named name hn hbody).bind fun _ _ _ hu hd =>
    Scope.bind_mirrored hM hscope (M.frame_le hu hid) (.ofCallable hd .none .none) name false true

/-! ### Blocks -/

theorem runBlock_mirrored (hM : M.Store T) (hev : Evaluator.Mirrored M ev ev' T)
    (hscope : Scope.Alike M.node scope scope') (hid : M.frame w id id') {b b' : BlockDef}
    (hb : b.Alike M.node b') :
    M.Acts w (runBlock ev scope b id) (runBlock ev' scope' b' id') M.Equal := by
  unfold runBlock
  rw [hscope.context, hb.template]
  refine (hM.create _ _ (.some hb)).bind fun u inner inner' hu hinner => ?_
  have hframe : M.Frames u (Frames.inside id true) (Frames.inside id' true) :=
    ⟨.nil, .some (M.frame_le hu hid), rfl, rfl⟩
  refine (hM.newFrame hframe).bind fun t c c' _ hc => ?_
  exact (hev.exec hinner hb.body hc).throughTemplate _

theorem block_mirrored (hM : M.Store T) (hev : Evaluator.Mirrored M ev ev' T)
    (hscope : Scope.Alike M.node scope scope') (hid : M.frame w id id') (name : String) :
    M.Acts w (block ev scope name id) (block ev' scope' name id') M.Equal := by
  have hrun : ∀ {u}, M.le w u → M.Acts u
      (do
        let definition ← Action.ofExcept ((← Action.context scope.context).block name)
        runBlock ev scope definition id)
      (do
        let definition ← Action.ofExcept ((← Action.context scope'.context).block name)
        runBlock ev' scope' definition id') M.Equal := by
    intro u hu
    rw [hscope.context]
    refine (hM.context _).bind fun t c c' ht hc => ?_
    refine (Acts.ofAnswers (hc.block name)).bind fun r b b' hr hb => ?_
    exact runBlock_mirrored hM hev hscope (M.frame_le (M.trans hu (M.trans ht hr)) hid) hb
  unfold block
  have hisNone : scope'.block.isNone = scope.block.isNone := by
    have hblock := hscope.block
    generalize scope.block = o, scope'.block = o' at hblock
    cases hblock <;> rfl
  refine (hM.extended hscope).bind fun u o o' hu ho => ?_
  obtain rfl : o' = o := ho.1
  rw [hisNone]
  split
  · exact .pure fun _ _ => rfl
  · exact hrun hu

theorem overridden_mirrored (hM : M.Store T) (hev : Evaluator.Mirrored M ev ev' T)
    (hscope : Scope.Alike M.node scope scope') (hid : M.frame w id id') (name : String)
    (hn : M.node n n') :
    M.Acts w (overridden ev scope name n id) (overridden ev' scope' name n' id') M.Any := by
  unfold overridden
  rw [hscope.context]
  have hblock := hscope.block
  generalize scope.block = o, scope'.block = o' at hblock
  cases hblock with
  | none => exact .fail _
  | some hb =>
      refine (hM.context _).bind fun t c c' ht hc => ?_
      refine (Acts.ofAnswers (hc.overridden name hb)).bind fun r d d' hr hd => ?_
      have hid := M.frame_le (M.trans ht hr) hid
      refine (runBlock_mirrored hM hev hscope hid hd).bind fun q out out' hq hout => ?_
      obtain rfl : out' = out := hout
      rw [M.faithful.asSymbol? hn]
      split
      · exact hM.setName _ false (M.frame_le hq hid) (.flat rfl)
      · exact .pure fun _ _ => trivial

/-! ### Other templates -/

theorem templateName_mirrored (hev : Evaluator.Mirrored M ev ev' T)
    (hscope : Scope.Alike M.node scope scope') (hid : M.frame w id id') (hn : M.node n n') :
    M.Acts w (templateName ev scope n id) (templateName ev' scope' n' id') M.Equal := by
  refine (hev.eval hscope hn hid).bind fun _ v v' _ hv => ?_
  rw [hv.asString?, hv.typeName]
  split
  · exact .pure fun _ _ => rfl
  · exact .fail _

theorem loadRequired_mirrored (hM : M.Serves env env' T) (name : String) (parent : Option String) :
    M.Acts w (env.loadRequired name parent) (env'.loadRequired name parent)
      fun _ template template' => template' = template ∧ T template := by
  refine (hM.load name parent false).bind fun _ o o' _ ho => ?_
  obtain ⟨rfl, hT⟩ := ho
  cases o' with
  | some template => exact .pure fun _ _ => ⟨rfl, hT template rfl⟩
  | none => exact .fail _

theorem template_mirrored (hM : M.Serves env env' T) (hev : Evaluator.Mirrored M ev ev' T)
    (hid : M.frame w id id') (number : TemplateId) (hT : T number) {bindings bindings' : Bindings}
    (hb : Bindings.Alike M.node bindings bindings') :
    M.Acts w (template env ev number bindings id) (template env' ev' number bindings' id')
      M.Equal := by
  refine (hM.compile number hT).bind fun u c c' hu hc => ?_
  refine (hM.newContext (.ofBlocks hM.globals hb hc.blocks)).bind fun t i i' ht hi => ?_
  obtain rfl : i' = i := hi
  have hid := M.frame_le (M.trans hu ht) hid
  refine (hev.root number i' [] hT hid).bind fun _ out out' _ hout => ?_
  obtain rfl : out' = out := hout
  exact .pure fun _ _ => rfl

theorem extend_mirrored (hM : M.Serves env env' T) (hev : Evaluator.Mirrored M ev ev' T)
    (hscope : Scope.Alike M.node scope scope') (hid : M.frame w id id') (hn : M.node n n') :
    M.Acts w (extend env ev scope n id) (extend env' ev' scope' n' id') M.Any := by
  unfold extend
  rw [hscope.path, hscope.context]
  refine (templateName_mirrored hev hscope hid hn).bind fun _ name name' _ hname => ?_
  obtain rfl : name' = name := hname
  refine (loadRequired_mirrored hM name' _).bind fun _ parent parent' _ hparent => ?_
  obtain ⟨rfl, hT⟩ := hparent
  refine (hM.compile parent' hT).bind fun _ c c' _ hc => ?_
  refine (hM.modifyContext _ fun h => h.addBlocks hc.blocks).bind fun _ _ _ _ _ => ?_
  exact hM.setExtended parent' hT hscope

theorem embed_mirrored (hM : M.Serves env env' T) (hev : Evaluator.Mirrored M ev ev' T)
    (hscope : Scope.Alike M.node scope scope') (hid : M.frame w id id') (hn : M.node n n')
    (ignoreMissing : Bool) :
    M.Acts w (embed env ev scope n ignoreMissing id) (embed env' ev' scope' n' ignoreMissing id')
      M.Equal := by
  unfold embed
  rw [hscope.path]
  refine (templateName_mirrored hev hscope hid hn).bind fun u name name' hu hname => ?_
  obtain rfl : name' = name := hname
  refine (hM.load name' _ ignoreMissing).bind fun t o o' ht ho => ?_
  obtain ⟨rfl, hT⟩ := ho
  cases o' with
  | none => exact .pure fun _ _ => rfl
  | some number =>
      have hframe : M.Frames t (Frames.topLevelInside id true) (Frames.topLevelInside id' true) :=
        ⟨.nil, .some (M.frame_le (M.trans hu ht) hid), rfl, rfl⟩
      refine (hM.newFrame hframe).bind fun _ c c' _ hc => ?_
      refine (Scope.bindings_mirrored hM.toStore hscope).bind fun r b b' hr hb => ?_
      have hT := hT number rfl
      refine (template_mirrored hM hev (M.frame_le hr hc) number hT hb).bind fun _ r r' _ hr => ?_
      obtain rfl : r' = r := hr
      exact .pure fun _ _ => rfl

theorem withScope_alike {R : Node → Node → Prop} {bindings bindings' : Bindings} {v v' : Value}
    (hb : Bindings.Alike R bindings bindings') (hv : v.Alike R v') :
    (withScope bindings v).Alike R (withScope bindings' v') := by
  cases hv with
  | flat h => cases v <;> first | exact .flat h | cases h
  | array hlength h => exact .array hlength h
  | map hnames h => exact .map hnames h
  | @callable d d' closure closure' exports exports' hd hclosure hexports hinner houter =>
      have hall := optionRel_members_iff.2 ⟨hclosure, hinner⟩
      cases exports <;> cases exports' <;> first | cases hexports | skip
      · simp only [withScope, hd.isCaller]
        split
        · exact .ofCallable hd hall .none
        · exact .ofCallable hd hall (.some hb)
      · exact .callable hd hclosure hexports hinner houter

theorem exports_mirrored (hM : M.Serves env env' T) (hev : Evaluator.Mirrored M ev ev' T)
    (hscope : Scope.Alike M.node scope scope') (hid : M.frame w id id') (hn : M.node n n')
    (withContext : Bool) :
    M.Acts w (exports env ev scope n withContext id) (exports env' ev' scope' n' withContext id')
      fun _ => Bindings.Alike M.node := by
  -- what is left to do once the template is there and has a frame of its own
  have hrest : ∀ {u} (number : TemplateId) {bindings bindings' : Bindings} {c c' : FrameId},
      T number → Bindings.Alike M.node bindings bindings' → M.frame u c c' → M.Acts u
        (do
          let r ← template env ev number bindings c
          let context ← Action.context r.2
          return context.exports.map fun m => (m.1, withScope context.bindings m.2))
        (do
          let r ← template env' ev' number bindings' c'
          let context ← Action.context r.2
          return context.exports.map fun m => (m.1, withScope context.bindings m.2))
        fun _ => Bindings.Alike M.node := by
    intro u number bindings bindings' c c' hT hb hc
    refine (template_mirrored hM hev hc number hT hb).bind fun _ r r' _ hr => ?_
    obtain rfl : r' = r := hr
    refine (hM.context _).bind fun _ d d' _ hd => .pure fun _ _ => ?_
    unfold Bindings.Alike
    rw [List.forall₂_map_left_iff, List.forall₂_map_right_iff]
    exact hd.exports.imp fun _ _ hm => ⟨hm.1, withScope_alike hd.bindings hm.2⟩
  unfold exports
  rw [hscope.path]
  refine (templateName_mirrored hev hscope hid hn).bind fun u name name' hu hname => ?_
  obtain rfl : name' = name := hname
  refine (loadRequired_mirrored hM name' _).bind fun t number number' ht hnumber => ?_
  obtain ⟨rfl, hT⟩ := hnumber
  cases withContext with
  | true =>
      have hframe : M.Frames t (Frames.topLevelInside id true) (Frames.topLevelInside id' true) :=
        ⟨.nil, .some (M.frame_le (M.trans hu ht) hid), rfl, rfl⟩
      refine (hM.newFrame hframe).bind fun _ c c' _ hc => ?_
      exact (Scope.bindings_mirrored hM.toStore hscope).bind fun _ b b' hr hb =>
        hrest number' hT hb (M.frame_le hr hc)
  | false =>
      have hframe : M.Frames t Frames.root Frames.root := ⟨.nil, .none, rfl, rfl⟩
      exact (hM.newFrame hframe).bind fun _ c c' _ hc => hrest number' hT .nil hc

theorem bindImports_mirrored (hM : M.Store T) (hscope : Scope.Alike M.node scope scope')
    (hid : M.frame w id id') {exports exports' : Bindings}
    (h : Bindings.Alike M.node exports exports') (names : List ImportName) :
    M.Acts w (bindImports scope exports id names) (bindImports scope' exports' id' names)
      M.Any := by
  induction names generalizing w with
  | nil => exact .pure fun _ _ => trivial
  | cons name rest ih =>
      unfold bindImports
      have hget := h.get? name.name
      generalize exports.get? name.name = o, exports'.get? name.name = o' at hget
      cases hget with
      | none => exact .fail _
      | some hv =>
          exact (Scope.bind_mirrored hM hscope hid hv _ false false).bind fun _ _ _ hu _ =>
            ih (M.frame_le hu hid)

/-! ### Statements -/

theorem silently_mirrored {x x' : Action Unit} (h : M.Acts w x x' M.Any) :
    M.Acts w (silently x) (silently x') M.Equal :=
  h.bind fun _ _ _ _ _ => .pure fun _ _ => rfl

/-- Statements of one kind with related parts, if that is known of loops with iterations at once. -/
theorem execute_mirrored_of_join (hM : M.Serves env env' T) (hev : Evaluator.Mirrored M ev ev' T)
    (hscope : Scope.Alike M.node scope scope') (hid : M.frame w id id') (hn : M.node n n')
    (hlike : n.Alike M.place M.node n')
    (hjoin : ∀ {p a b c d}, n = .loop p .all a b c d → ∀ {w} {xs xs' : List (Action String)},
      List.Forall₂ (fun x x' => M.Acts w x x' M.Equal) xs xs' →
        M.Acts w (Action.join xs) (Action.join xs') M.Equal) :
    M.Acts w (execute env ev scope n id) (execute env' ev' scope' n' id') M.Equal := by
  have hbare := bareExpression_mirrored hM hev hscope hid hn
  have hsequence : ∀ {ns ns' : List Node}, List.Forall₂ M.node ns ns' →
      M.Acts w (Action.appendAll (fun n => ev.exec scope n id) "" ns)
        (Action.appendAll (fun n => ev'.exec scope' n id') "" ns') M.Equal := fun hns =>
    Acts.appendAll hns (fun _ _ hc => hev.exec hscope hc hid) ""
  cases hlike with
  | @group k _ _ _ _ _ hns =>
      cases k with
      | root | sequence => exact hsequence hns
      | output =>
          exact Acts.appendAll hns (fun _ _ hc => outputMember_mirrored hM hev hscope hid hc) ""
      | array | dict | keywords => exact hbare
  | text => exact .pure fun _ _ => rfl
  | branch _ ha hb hc => exact branch_mirrored hev hscope hid ha hb hc
  | loop _ ha hb hc hd =>
      refine loop_mirrored hM.toStore hev hscope hid ha hb hc hd fun hmode => ?_
      subst hmode
      exact hjoin rfl
  | assign _ hns ha hb =>
      exact silently_mirrored (assign_mirrored hM.toStore hev hscope hid hns ha hb)
  | @definition _ _ r _ _ _ _ _ _ ha hb =>
      cases r with
      | named => exact silently_mirrored (define_mirrored hM.toStore hscope hid _ ha hb)
      | caller => exact hbare
  | block => exact block_mirrored hM.toStore hev hscope hid _
  | overridden _ ha =>
      exact silently_mirrored (overridden_mirrored hM.toStore hev hscope hid _ ha)
  | extend _ ha => exact silently_mirrored (extend_mirrored hM hev hscope hid ha)
  | embed _ ha => exact embed_mirrored hM hev hscope hid ha _
  | importAll _ ha =>
      refine silently_mirrored ?_
      refine (exports_mirrored hM hev hscope hid ha _).bind fun _ b b' hu hb => ?_
      exact Scope.bind_mirrored hM.toStore hscope (M.frame_le hu hid) (.ofMembers hb) _ false false
  | importNames _ ha =>
      refine silently_mirrored ?_
      refine (exports_mirrored hM hev hscope hid ha _).bind fun _ b b' hu hb => ?_
      exact bindImports_mirrored hM.toStore hscope (M.frame_le hu hid) hb _
  | tagCall _ ha hns => exact tagOutput_mirrored hM hev hscope hid _ ha hns
  | bind _ ha hb =>
      refine silently_mirrored ?_
      refine (hev.eval hscope ha hid).bind fun u v v' hu hv => ?_
      rw [M.faithful.asSymbol? hb]
      split
      · exact hM.setName _ false (M.frame_le hu hid) hv
      · exact .pure fun _ _ => trivial
  | capture | literal | symbol | pair | binary | unary | compare | operand | choice | lookup
  | slice | call | filter => exact hbare

/-- Statements of one kind with related parts. -/
theorem execute_mirrored (hM : M.Keeps env env' T) (hev : Evaluator.Mirrored M ev ev' T)
    (hscope : Scope.Alike M.node scope scope') (hid : M.frame w id id') (hn : M.node n n')
    (hlike : n.Alike M.place M.node n') :
    M.Acts w (execute env ev scope n id) (execute env' ev' scope' n' id') M.Equal := by
  refine execute_mirrored_of_join hM.toServes hev hscope hid hn hlike ?_
  rintro p a b c d rfl
  cases hlike with
  | loop => exact hM.join hn

end Stencil.Render
