/-
**Calls in two runs.**

Main results:

* `Stencil.Render.call_mirrored` — a call of related values;
* `Stencil.Render.applyFilter_mirrored`, `Stencil.Render.applyTest_mirrored`,
  `Stencil.Render.callTag_mirrored` — filters, tests and extensions.
-/

import Stencil.Proofs.Mirror.Laws

set_option autoImplicit false

namespace Stencil

variable {M : Mirror} {T : TemplateId → Prop} {env env' : Environment} {ev ev' : Evaluator}
  {w : M.World}
  {scope scope' : Scope} {n n' : Node} {id id' : FrameId}

open Mirror

/-! ### Names -/

/-- The names of the context. -/
theorem Scope.bindings_mirrored (hM : M.Store T) (hscope : Scope.Alike M.node scope scope') :
    M.Acts w scope.bindings scope'.bindings fun _ => Bindings.Alike M.node := by
  unfold Scope.bindings
  rw [hscope.context]
  exact (hM.context _).bind fun _ _ _ _ hc => .pure fun _ _ => hc.bindings

/-- A name is bound. -/
theorem Scope.bind_mirrored (hM : M.Store T) (hscope : Scope.Alike M.node scope scope')
    (hid : M.frame w id id') {v v' : Value} (hv : v.Alike M.node v') (name : String)
    (up offered : Bool) :
    M.Acts w (scope.bind id name v up offered) (scope'.bind id' name v' up offered) M.Any := by
  unfold Scope.bind
  refine (hM.setName name up hid hv).bind fun u _ _ hu _ => ?_
  refine (hM.isTopLevel (M.frame_le hu hid)).bind fun t top top' _ htop => ?_
  obtain rfl : top' = top := htop
  cases top' with
  | false => exact .pure fun _ _ => trivial
  | true =>
      rw [hscope.context]
      refine hM.modifyContext _ fun hc => ?_
      dsimp only
      split
      · exact (hc.bind hv name).addExport name
      · exact hc.bind hv name

namespace Render

/-! ### Arguments -/

theorem argumentsFrom_mirrored (hev : Evaluator.Mirrored M ev ev' T)
    (hscope : Scope.Alike M.node scope scope') (hid : M.frame w id id') {ns ns' : List Node}
    (hns : List.Forall₂ M.node ns ns') {args args' : CallArgs}
    (hargs : CallArgs.Alike M.node args args') :
    M.Acts w (argumentsFrom ev scope id args ns) (argumentsFrom ev' scope' id' args' ns')
      fun _ => CallArgs.Alike M.node := by
  induction hns generalizing w args args' with
  | nil => exact .pure fun _ _ => hargs
  | @cons n n' _ _ hn _ ih =>
      refine (hev.eval hscope hn hid).bind fun u v v' hu hv => ?_
      have hpositional : CallArgs.Alike M.node { args with positional := args.positional ++ [v] }
          { args' with positional := args'.positional ++ [v'] } :=
        { hargs with positional := List.rel_append hargs.positional (.cons hv .nil) }
      have hnext := fun {b b'} (hb : CallArgs.Alike M.node b b') =>
        ih (M.frame_le hu hid) hb
      rw [M.faithful.isKeywords hn]
      cases isKeywords n with
      | false =>
          cases hv with
          | flat => cases v <;> exact hnext hpositional
          | array | map | callable => exact hnext hpositional
      | true =>
          cases hv with
          | flat h => cases v <;> first | exact hnext hpositional | cases h
          | array | callable => exact hnext hpositional
          | map hnames h =>
              exact hnext { hargs with keywords := forall₂_members_iff.2 ⟨hnames, h⟩ }

theorem arguments_mirrored (hev : Evaluator.Mirrored M ev ev' T)
    (hscope : Scope.Alike M.node scope scope') (hn : M.node n n') (hid : M.frame w id id') :
    M.Acts w (arguments ev scope n id) (arguments ev' scope' n' id')
      fun _ => CallArgs.Alike M.node :=
  argumentsFrom_mirrored hev hscope hid (M.faithful.members hn) ⟨.nil, .nil⟩

theorem takeArgument_alike {R : Node → Node → Prop} {args args' : CallArgs}
    (h : CallArgs.Alike R args args') (name : String) :
    Option.Rel (Value.Alike R) (takeArgument args name).1 (takeArgument args' name).1 ∧
      CallArgs.Alike R (takeArgument args name).2 (takeArgument args' name).2 := by
  obtain ⟨positional, keywords⟩ := args
  obtain ⟨positional', keywords'⟩ := args'
  obtain ⟨hpositional, hkeywords⟩ := h
  cases hpositional with
  | cons hv hrest => exact ⟨.some hv, hrest, hkeywords⟩
  | nil =>
      have hget := hkeywords.get? name
      simp only [takeArgument]
      generalize Named.get? keywords name = o, Named.get? keywords' name = o' at hget
      cases hget with
      | none => exact ⟨.none, .nil, hkeywords⟩
      | some hv => exact ⟨.some hv, .nil, hkeywords.erase name⟩

/-! ### Macros -/

theorem declare_mirrored (hM : M.Store T) (hscope : Scope.Alike M.node scope scope')
    (role : MacroRole) (name : String) (hn : M.node n n') {body body' : Node}
    (hbody : M.node body body') :
    M.Acts w (declare scope role name n body) (declare scope' role name n' body')
      fun _ => MacroDef.Alike M.node := by
  refine hM.newNumber.bind fun _ number number' _ hnumber => .pure fun _ _ => ?_
  exact {
    number := hnumber
    name := rfl
    parameters := M.faithful.plainParameters hn
    defaults := M.faithful.defaultParameters hn
    body := hbody
    template := hscope.path
    isCaller := rfl }

theorem bindPlain_mirrored (hM : M.Store T) (hid : M.frame w id id') {args args' : CallArgs}
    (hargs : CallArgs.Alike M.node args args') (names : List String) :
    M.Acts w (bindPlain id args names) (bindPlain id' args' names)
      fun _ => CallArgs.Alike M.node := by
  induction names generalizing w args args' with
  | nil => exact .pure fun _ _ => hargs
  | cons name rest ih =>
      obtain ⟨hv, hrest⟩ := takeArgument_alike hargs name
      refine (hM.setName name false hid (.orUndefined hv)).bind fun u _ _ hu _ => ?_
      exact ih (M.frame_le hu hid) hrest

theorem bindDefaults_mirrored (hM : M.Store T) (hev : Evaluator.Mirrored M ev ev' T)
    (hscope : Scope.Alike M.node scope scope') (hid : M.frame w id id') {args args' : CallArgs}
    (hargs : CallArgs.Alike M.node args args') {defaults defaults' : List (String × Node)}
    (hdefaults : List.Forall₂ (fun e e' : String × Node => e'.1 = e.1 ∧ M.node e.2 e'.2) defaults
      defaults') :
    M.Acts w (bindDefaults ev scope id args defaults) (bindDefaults ev' scope' id' args' defaults')
      fun _ => CallArgs.Alike M.node := by
  induction hdefaults generalizing w args args' with
  | nil => exact .pure fun _ _ => hargs
  | @cons e e' _ _ he _ ih =>
      obtain ⟨name, default⟩ := e
      obtain ⟨name', default'⟩ := e'
      obtain ⟨rfl : name' = name, hdefault⟩ := he
      obtain ⟨hv, hrest⟩ := takeArgument_alike hargs name'
      simp only [bindDefaults]
      have hnext : ∀ {u v v'}, M.le w u → v.Alike M.node v' → M.Acts u
          (do
            Action.setName id name' v false
            bindDefaults ev scope id (takeArgument args name').2 _)
          (do
            Action.setName id' name' v' false
            bindDefaults ev' scope' id' (takeArgument args' name').2 _)
          fun _ => CallArgs.Alike M.node := fun hu hv =>
        (hM.setName name' false (M.frame_le hu hid) hv).bind fun t _ _ ht _ =>
          ih (M.frame_le (M.trans hu ht) hid) hrest
      generalize (takeArgument args name').1 = o, (takeArgument args' name').1 = o' at hv
      cases hv with
      | none => exact (hev.eval hscope hdefault hid).bind fun u v v' hu hv => hnext hu hv
      | some hv => exact hnext (M.refl w) hv

theorem bindParameters_mirrored (hM : M.Store T) (hev : Evaluator.Mirrored M ev ev' T)
    (hscope : Scope.Alike M.node scope scope') (hid : M.frame w id id') {d d' : MacroDef}
    (hd : d.Alike M.node d') {args args' : CallArgs} (hargs : CallArgs.Alike M.node args args') :
    M.Acts w (bindParameters ev scope id d args) (bindParameters ev' scope' id' d' args')
      M.Any := by
  unfold bindParameters
  rw [hd.parameters]
  refine (bindPlain_mirrored hM hid hargs d.parameters).bind fun u a a' hu ha => ?_
  refine (bindDefaults_mirrored hM hev hscope (M.frame_le hu hid) ha hd.defaults).bind
    fun t b b' ht hb => ?_
  have hget := hb.keywords.get? "caller"
  generalize b.keywords.get? "caller" = o, b'.keywords.get? "caller" = o' at hget
  cases hget with
  | none => exact .pure fun _ _ => trivial
  | some hv => exact hM.setName "caller" false (M.frame_le (M.trans hu ht) hid) hv

theorem macroFrame_mirrored (hM : M.Store T) {closure closure' : Option Bindings}
    (h : Option.Rel (Bindings.Alike M.node) closure closure') :
    M.Acts w (macroFrame closure) (macroFrame closure') M.frame := by
  cases h with
  | none => exact hM.newFrame ⟨Bindings.Alike.nil, Option.Rel.none, rfl, rfl⟩
  | some hb =>
      have hclosure : M.Frames w (Frames.ofBindings _) (Frames.ofBindings _) :=
        ⟨hb, .none, rfl, rfl⟩
      refine (hM.newFrame hclosure).bind fun u outer outer' hu houter => ?_
      exact hM.newFrame ⟨.nil, .some houter, rfl, rfl⟩

theorem macroScope_mirrored (hM : M.Store T) (hscope : Scope.Alike M.node scope scope')
    {d d' : MacroDef} (hd : d.Alike M.node d') {exports exports' : Option Bindings}
    (h : Option.Rel (Bindings.Alike M.node) exports exports') :
    M.Acts w (macroScope scope d exports) (macroScope scope' d' exports')
      fun _ => Scope.Alike M.node := by
  unfold macroScope
  rw [hscope.context, hd.template]
  cases h with
  | none => exact hM.create _ _ .none
  | some hb =>
      refine (hM.context _).bind fun _ c c' _ hc => ?_
      refine (hM.newContext (.ofBlocks hc.globals hb .nil)).bind fun _ i i' _ hi => ?_
      obtain rfl : i' = i := hi
      exact hM.create _ _ .none

theorem runMacro_mirrored (hM : M.Store T) (hev : Evaluator.Mirrored M ev ev' T)
    (hscope : Scope.Alike M.node scope scope') {d d' : MacroDef} (hd : d.Alike M.node d')
    {closure closure' exports exports' : Option Bindings}
    (hclosure : Option.Rel (Bindings.Alike M.node) closure closure')
    (hexports : Option.Rel (Bindings.Alike M.node) exports exports') {args args' : CallArgs}
    (hargs : CallArgs.Alike M.node args args') :
    M.Acts w (runMacro ev scope d closure exports args)
      (runMacro ev' scope' d' closure' exports' args') M.Same := by
  unfold runMacro
  refine (macroFrame_mirrored hM hclosure).bind fun u id id' _ hid => ?_
  refine (macroScope_mirrored hM hscope hd hexports).bind fun t inner inner' ht hinner => ?_
  have hid := M.frame_le ht hid
  refine (bindParameters_mirrored hM hev hinner hid hd hargs).bind fun r _ _ hr _ => ?_
  have hbody := hev.exec hinner hd.body (M.frame_le hr hid)
  have hsafe : ∀ v (out out' : String), M.le r v → out' = out →
      M.Acts v (pure (Value.safe out)) (pure (Value.safe out')) M.Same := by
    rintro v out out' - rfl
    exact .pure fun _ _ => .flat rfl
  rw [hd.template]
  cases hexports with
  | none => exact hbody.bind hsafe
  | some => exact (hbody.throughTemplate _).bind hsafe

theorem callMacro_mirrored (hM : M.Store T) (hev : Evaluator.Mirrored M ev ev' T)
    (hscope : Scope.Alike M.node scope scope') {d d' : MacroDef} (hd : d.Alike M.node d')
    {closure closure' exports exports' : Option Bindings}
    (hclosure : Option.Rel (Bindings.Alike M.node) closure closure')
    (hexports : Option.Rel (Bindings.Alike M.node) exports exports') {args args' : CallArgs}
    (hargs : CallArgs.Alike M.node args args') :
    M.Acts w (callMacro ev scope d closure exports args)
      (callMacro ev' scope' d' closure' exports' args') M.Same := by
  unfold callMacro
  have hread : M.Acts w (Action.read State.depth) (Action.read State.depth) M.Equal :=
    .read fun _ _ _ _ hs => hM.depth hs
  refine hread.bind fun u depth depth' _ hdepth => ?_
  obtain rfl : depth' = depth := hdepth
  rw [hd.name]
  split
  · exact .fail _
  · refine Acts.bind (.modify fun _ _ _ _ hs => hM.enter hs) fun t _ _ _ _ => ?_
    exact (runMacro_mirrored hM hev hscope hd hclosure hexports hargs).andFinally hM.leave

/-- A call of a value. -/
theorem call_mirrored (hM : M.Store T) (hev : Evaluator.Mirrored M ev ev' T)
    (hscope : Scope.Alike M.node scope scope') (hn : M.node n n') {v v' : Value} (hv : v.Alike M.node v')
    {args args' : CallArgs} (hargs : CallArgs.Alike M.node args args') :
    M.Acts w (call ev scope n v args) (call ev' scope' n' v' args') M.Same := by
  have hname := M.faithful.calleeName hn
  have hfail : M.Acts w (if v.isNullish then Action.fail (.undefinedCall (calleeName n))
      else Action.fail (.notCallable (calleeName n)))
      (if v.isNullish then Action.fail (.undefinedCall (calleeName n'))
        else Action.fail (.notCallable (calleeName n'))) M.Same := by
    rw [hname]
    split <;> exact .fail _
  cases hv with
  | flat h =>
      cases v with
      | function number name => exact (hM.function number hargs).located (M.position hn)
      | array | map | callable => cases h
      | _ => exact hfail
  | array | map => exact hfail
  | callable hd hclosure hscope' hinner houter =>
      exact callMacro_mirrored hM hev hscope hd (optionRel_members_iff.2 ⟨hclosure, hinner⟩)
        (optionRel_members_iff.2 ⟨hscope', houter⟩) hargs

/-! ### Filters, tests and extensions -/

theorem applyFilter_mirrored (hM : M.Serves env env' T) (hev : Evaluator.Mirrored M ev ev' T)
    (hscope : Scope.Alike M.node scope scope') (name : String) (hn : M.node n n')
    (hid : M.frame w id id') :
    M.Acts w (applyFilter env ev scope name n id) (applyFilter env' ev' scope' name n' id')
      M.Same := by
  unfold applyFilter
  have hfilter := hM.filter name
  generalize env.filters.lookup name = o, env'.filters.lookup name = o' at hfilter
  cases hfilter with
  | none => exact .fail _
  | some hf =>
      refine (Acts.sequence (M.faithful.members hn) fun c c' hc =>
        hev.eval hscope hc hid).bind fun u vs vs' _ hvs => ?_
      cases hvs with
      | nil => exact hf (.flat rfl) .nil
      | cons hv hargs => exact hf hv hargs

theorem testCall_mirrored (hev : Evaluator.Mirrored M ev ev' T)
    (hscope : Scope.Alike M.node scope scope') (hn : M.node n n') (hid : M.frame w id id') :
    M.Acts w (testCall ev scope n id) (testCall ev' scope' n' id')
      fun _ t t' => t'.1 = t.1 ∧ List.Forall₂ (Value.Alike M.node) t.2 t'.2 := by
  have hfail : ∀ m : Node, m.isSeen = false →
      testCall ev scope m id = Action.fail .testName ∧
        testCall ev' scope' m id' = Action.fail .testName := fun m hm => by
    cases m <;> first | exact ⟨rfl, rfl⟩ | cases hm
  have hcallee : ∀ {p : Position} {m args : Node}, m.isSeen = false →
      testCall ev scope (.call p m args) id = Action.fail .testName ∧
        testCall ev' scope' (.call p m args) id' = Action.fail .testName := fun {_ m _} hm => by
    cases m <;> first | exact ⟨rfl, rfl⟩ | cases hm
  rcases M.faithful _ _ hn with hlike | ⟨hunseen, hunseen'⟩
  · cases hlike with
    | symbol => exact .pure fun _ _ => ⟨rfl, .nil⟩
    | @literal _ _ v =>
        cases v with
        | none => exact .pure fun _ _ => ⟨rfl, .nil⟩
        | bool | int | float | string | pattern => exact .fail _
    | call _ ha hb =>
        rcases M.faithful _ _ ha with hlike | ⟨hunseen, hunseen'⟩
        · cases hlike with
          | symbol =>
              exact (arguments_mirrored hev hscope hb hid).bind fun _ _ _ _ hargs =>
                .pure fun _ _ => ⟨rfl, hargs.positional⟩
          | _ => exact .fail _
        · rw [(hcallee hunseen).1, (hcallee hunseen').2]
          exact .fail _
    | _ => exact .fail _
  · rw [(hfail n hunseen).1, (hfail n' hunseen').2]
    exact .fail _

theorem applyTest_mirrored (hM : M.Serves env env' T) (hev : Evaluator.Mirrored M ev ev' T)
    (hscope : Scope.Alike M.node scope scope') {left left' : Node} (hleft : M.node left left')
    (hn : M.node n n') (hid : M.frame w id id') :
    M.Acts w (applyTest env ev scope left n id) (applyTest env' ev' scope' left' n' id')
      M.Same := by
  unfold applyTest
  refine (hev.eval hscope hleft hid).bind fun u v v' hu hv => ?_
  refine (testCall_mirrored hev hscope hn (M.frame_le hu hid)).bind fun t c c' _ hc => ?_
  obtain ⟨name, args⟩ := c
  obtain ⟨name', args'⟩ := c'
  obtain ⟨rfl : name' = name, hargs⟩ := hc
  have htest := hM.test name'
  dsimp only
  generalize env.tests.lookup name' = o, env'.tests.lookup name' = o' at htest
  cases htest with
  | none => exact .fail _
  | some ht =>
      refine (Acts.ofExcept (Q := M.Equal) fun _ _ => ?_).bind fun _ b b' _ hb =>
        .pure fun _ _ => ?_
      · exact ht hv hargs
      · obtain rfl : b' = b := hb
        exact .flat rfl

theorem callTag_mirrored (hM : M.Serves env env' T) (hev : Evaluator.Mirrored M ev ev' T)
    (hscope : Scope.Alike M.node scope scope') (tag : TagCall) (hn : M.node n n')
    {content content' : List Node} (hcontent : List.Forall₂ M.node content content')
    (hid : M.frame w id id') :
    M.Acts w (callTag env ev scope tag n content id) (callTag env' ev' scope' tag n' content' id')
      M.Same := by
  unfold callTag
  have htag := hM.tag tag.extension
  generalize env.extension? tag.extension = o, env'.extension? tag.extension = o' at htag
  cases htag with
  | none => exact .fail _
  | some hx =>
      refine (arguments_mirrored hev hscope hn hid).bind fun u args args' hu hargs => ?_
      rw [hscope.context]
      refine hx _ _ hargs ?_
      rw [List.forall₂_map_left_iff, List.forall₂_map_right_iff]
      exact hcontent.imp fun _ _ hc => hev.exec hscope hc (M.frame_le hu hid)

end Render

end Stencil
