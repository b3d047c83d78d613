/-
**Whole templates in two runs.**

What statements and expressions of related trees give is related however deep they nest, and so is
what whole templates give.

Main definitions:

* `Stencil.Mirror.Handled` — a pair of nodes that gives related results;
* `Stencil.Mirror.Reaches` — every related pair of nodes is of one kind, or is handled.

Main results:

* `Stencil.Evaluator.Mirrored.step` — one more level of nesting;
* `Stencil.Evaluator.Mirrored.tied` — **two runs of related trees give related results**;
* `Stencil.Evaluator.Mirrored.renderWith` — and so do renderings of the same entry with data that is
  alike.
-/

import Stencil.Proofs.Evaluation.Runs
import Stencil.Proofs.Mirror.Statements

set_option autoImplicit false

namespace Stencil

variable {M : Mirror} {T : TemplateId → Prop} {env env' : Environment} {ev ev' : Evaluator}
  {w : M.World}

open Mirror

/-- A template in a context and a frame, then the template that it extends, where running one template
alone is left open. -/
def Render.rootBy (run : Scope → FrameId → TemplateId → Action String) (ev : Evaluator)
    (id : TemplateId) (context : ContextId) (frame : FrameId) (lineage : List String) :
    Action String := do
  let name := (← Environment.template id).name
  let lineage := lineage ++ [name]
  let scope ← Scope.create context name none
  let out ← Action.throughTemplate name (run scope frame id)
  match ← scope.extended? with
  | none => return out
  | some parent =>
    let parentName := (← Environment.template parent).name
    if lineage.contains parentName then
      Action.throughTemplate name (Action.fail (.cyclicInheritance (lineage ++ [parentName])))
    else ev.root parent context frame lineage

theorem Render.rootBy_mirrored (run run' : Scope → FrameId → TemplateId → Action String)
    (hM : M.Store T) (hev : Evaluator.Mirrored M ev ev' T)
    (hrun : ∀ {w scope scope' id id'} (template : TemplateId), T template →
      Scope.Alike M.node scope scope' → M.frame w id id' →
        M.Acts w (run scope id template) (run' scope' id' template) M.Equal)
    {id id' : FrameId} (hid : M.frame w id id') (template : TemplateId) (hT : T template)
    (context : ContextId) (lineage : List String) :
    M.Acts w (Render.rootBy run ev template context id lineage)
      (Render.rootBy run' ev' template context id' lineage) M.Equal := by
  refine (hM.name template).bind fun u t t' hu ht => ?_
  rw [ht]
  refine (hM.create context t.name .none).bind fun v scope scope' hv hscope => ?_
  have hid := M.frame_le (M.trans hu hv) hid
  refine Acts.bind (Q := M.Equal) ((hrun template hT hscope hid).throughTemplate _)
    fun r out out' hr hout => ?_
  refine (hM.extended hscope).bind fun q o o' hq ho => ?_
  obtain ⟨rfl, hparents⟩ := ho
  cases o' with
  | none => exact .pure fun _ _ => hout
  | some parent =>
      refine (hM.name parent).bind fun p t₂ t₂' hp ht₂ => ?_
      dsimp only
      rw [ht₂]
      split
      · exact (Acts.fail _).throughTemplate _
      · exact hev.root parent context _ (hparents parent rfl)
          (M.frame_le (M.trans hr (M.trans hq hp)) hid)

/-- A template, and then the templates that it extends. -/
theorem Render.root_mirrored (hM : M.Serves env env' T) (hev : Evaluator.Mirrored M ev ev' T)
    {id id' : FrameId} (hid : M.frame w id id') (template : TemplateId) (hT : T template)
    (context : ContextId) (lineage : List String) :
    M.Acts w (Render.root env ev template context id lineage)
      (Render.root env' ev' template context id' lineage) M.Equal :=
  rootBy_mirrored _ _ hM.toStore hev (fun template hT hscope hid =>
    (hM.compile template hT).bind fun _ _ _ hq hc => hev.exec hscope hc.root (M.frame_le hq hid))
    hid template hT context lineage

/-- A pair of nodes that gives related results, as statements and as expressions. -/
def Mirror.Handled (M : Mirror) (env env' : Environment) (ev ev' : Evaluator) (n n' : Node) :
    Prop :=
  ∀ {w scope scope' id id'}, Scope.Alike M.node scope scope' → M.frame w id id' →
    M.Acts w (Render.execute env ev scope n id) (Render.execute env' ev' scope' n' id') M.Equal ∧
      M.Acts w (Render.evaluate env ev scope n id) (Render.evaluate env' ev' scope' n' id') M.Same

/-- Every related pair of nodes is of one kind, or gives related results for another reason. -/
def Mirror.Reaches (M : Mirror) (env env' : Environment) (ev ev' : Evaluator) : Prop :=
  ∀ n n', M.node n n' → n.Alike M.place M.node n' ∨ M.Handled env env' ev ev' n n'

namespace Evaluator.Mirrored

/-- Two evaluators that run nothing. -/
theorem exhausted : Mirrored M .exhausted .exhausted T where
  exec _ _ _ := .fail _
  eval _ _ _ := .fail _
  root _ _ _ _ _ := .fail _

/-- One more level of nesting. -/
theorem step (hM : M.Keeps env env' T) (hev : Mirrored M ev ev' T)
    (h : M.Reaches env env' ev ev') : Mirrored M (ev.step env) (ev'.step env') T where
  exec hscope hn hid := by
    refine Acts.located ?_ (M.position hn)
    rcases h _ _ hn with hlike | hhandled
    · exact Render.execute_mirrored hM hev hscope hid hn hlike
    · exact (hhandled hscope hid).1
  eval hscope hn hid := by
    refine Acts.located ?_ (M.position hn)
    rcases h _ _ hn with hlike | hhandled
    · exact Render.evaluate_mirrored hM.toServes hev hscope hid hn hlike
    · exact (hhandled hscope hid).2
  root template context lineage hT hid :=
    Render.root_mirrored hM.toServes hev hid template hT context lineage

/-- Two runs of related trees give related results, however deep they nest. -/
theorem tied (hM : M.Keeps env env' T)
    (h : ∀ depth, Mirrored M (.tied env depth) (.tied env' depth) T →
      M.Reaches env env' (.tied env depth) (.tied env' depth)) (depth : Nat) :
    Mirrored M (.tied env depth) (.tied env' depth) T := by
  induction depth with
  | zero => exact exhausted
  | succ depth ih => exact step hM ih (h depth ih)

/-- A template in a frame of its own. -/
theorem run (hM : M.Serves env env' T) (hev : Mirrored M ev ev' T) (id : TemplateId) (hT : T id)
    {bindings bindings' : Bindings} (hb : Bindings.Alike M.node bindings bindings') :
    M.Acts w (ev.run env id bindings) (ev'.run env' id bindings') M.Equal := by
  have hframe : M.Frames w Frames.root Frames.root := ⟨.nil, .none, rfl, rfl⟩
  refine (hM.newFrame hframe).bind fun _ frame frame' _ hid => ?_
  refine (Render.template_mirrored hM hev hid id hT hb).bind fun _ r r' _ hr => ?_
  obtain rfl : r' = r := hr
  exact .pure fun _ _ => rfl

end Evaluator.Mirrored

/-! ### Entries -/

/-- The names that data binds. -/
theorem Value.Alike.dataBindings {R : Node → Node → Prop} {data data' : Value}
    (h : data.Alike R data') : Answers Eq (Bindings.Alike R) (Environment.dataBindings data)
      (Environment.dataBindings data') := by
  cases h with
  | flat hflat =>
      cases data with
      | undefined | nothing => exact .ok .nil
      | array | map | callable => cases hflat
      | _ => exact .error rfl
  | array | callable => exact .error rfl
  | map hnames hmembers => exact .ok (forall₂_members_iff.2 ⟨hnames, hmembers⟩)

/-- What starts a rendering with data may be done in any two related states. -/
theorem Evaluator.Mirrored.runData (hM : M.Serves env env' T) (hev : Mirrored M ev ev' T)
    (hstart : ∀ {v s s'}, M.state v s s' →
      M.state v (Environment.startRun s) (Environment.startRun s')) {id : TemplateId} (hT : T id)
    {data data' : Value} (hdata : data.Alike M.node data') :
    M.Acts w (env.runData ev data id) (env'.runData ev' data' id) M.Equal := by
  refine (Acts.ofAnswers hdata.dataBindings).bind fun _ bindings bindings' _ hbindings => ?_
  refine (Acts.modify fun _ _ _ _ h => hstart h).bind fun _ _ _ _ _ => ?_
  exact hev.run hM id hT hbindings

/-- A template by name is to be rendered. -/
theorem Mirror.Serves.enter_named (hM : M.Serves env env') (name : String) :
    M.Acts w (env.enter (.named name)) (env'.enter (.named name)) M.Equal := by
  refine (hM.load name none false).bind fun _ found found' _ hfound => ?_
  obtain rfl : found' = found := hfound.1
  cases found' with
  | none => exact .fail _
  | some id => exact .pure fun _ _ => rfl

/-- What is rendered with data. -/
theorem Evaluator.Mirrored.renderWith (hM : M.Serves env env') (hev : Mirrored M ev ev')
    (hstart : ∀ {v s s'}, M.state v s s' →
      M.state v (Environment.startRun s) (Environment.startRun s'))
    {entry entry' : Environment.Entry}
    (hentry : M.Acts w (env.enter entry) (env'.enter entry') M.Equal) {data data' : Value}
    (hdata : data.Alike M.node data') :
    M.Acts w (env.renderWith ev entry data) (env'.renderWith ev' entry' data') M.Equal := by
  refine hentry.bind fun _ id id' _ hid => ?_
  obtain rfl : id' = id := hid
  exact hev.runData hM hstart trivial hdata

end Stencil
