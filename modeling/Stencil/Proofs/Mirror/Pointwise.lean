/-
**States that are related place by place.**

The plainest way in which two runs can be related: whatever one of them makes, the other one makes at
the same number, and the two are the same but for the trees in them and the places in errors.
Templates may come from different sources, as long as what the sources are compiled to is related.

Main definitions:

* `Stencil.Aligned` — two arrays of the same size, with related entries;
* `Stencil.State.Alike` — two states that are the same but for trees and sources;
* `Stencil.TemplateError.Alike` — two errors that are the same but for the place;
* `Stencil.Likeness.pointwise` — two runs in such states, with such errors.

Main results:

* `Stencil.Likeness.pointwise_store` — frames, contexts and numbers stay related;
* `Stencil.Likeness.pointwise_compile`, `Stencil.Likeness.pointwise_load` — so do templates.
-/

import Stencil.Proofs.Mirror.Lockstep

set_option autoImplicit false

namespace Stencil

/-! ### Arrays -/

/-- Two arrays of the same size, with related entries. -/
structure Aligned {α β : Type} (Q : α → β → Prop) (xs : Array α) (ys : Array β) : Prop where
  size : ys.size = xs.size
  entry : ∀ i : Nat, Option.Rel Q xs[i]? ys[i]?

namespace Aligned

variable {α β : Type} {Q : α → β → Prop} {xs : Array α} {ys : Array β}

theorem empty : Aligned Q #[] #[] := ⟨rfl, fun _ => .none⟩

theorem push (h : Aligned Q xs ys) {x : α} {y : β} (hxy : Q x y) :
    Aligned Q (xs.push x) (ys.push y) := by
  refine ⟨by simp [h.size], fun i => ?_⟩
  rw [Array.getElem?_push, Array.getElem?_push, h.size]
  split
  · exact .some hxy
  · exact h.entry i

theorem pushAll (h : Aligned Q xs ys) {as : List α} {bs : List β} (hab : List.Forall₂ Q as bs) :
    Aligned Q (as.foldl Array.push xs) (bs.foldl Array.push ys) := by
  induction hab generalizing xs ys with
  | nil => exact h
  | cons hab _ ih => exact ih (h.push hab)

theorem modify (h : Aligned Q xs ys) (i : Nat) {f : α → α} {g : β → β}
    (hfg : ∀ x y, Q x y → Q (f x) (g y)) : Aligned Q (xs.modify i f) (ys.modify i g) := by
  refine ⟨by simp [h.size], fun j => ?_⟩
  rw [Array.getElem?_modify, Array.getElem?_modify]
  have hj := h.entry j
  split
  · generalize xs[j]? = x, ys[j]? = y at hj
    cases hj with
    | none => exact .none
    | some hxy => exact .some (hfg _ _ hxy)
  · exact hj

/-- The entry at a number, or else something that is there for it. -/
theorem getD (h : Aligned Q xs ys) (i : Nat) {x : α} {y : β} (hxy : Q x y) :
    Q ((xs[i]?).getD x) ((ys[i]?).getD y) := by
  have hi := h.entry i
  generalize xs[i]? = x, ys[i]? = y at hi
  cases hi with
  | none => exact hxy
  | some h => exact h

end Aligned

/-! ### Frames -/

/-- Two frames at the same place that are the same but for the trees in their values. -/
structure Frame.Alike (R : Node → Node → Prop) (f f' : Frame) : Prop where
  bindings : Bindings.Alike R f.bindings f'.bindings
  parent : f'.parent = f.parent
  isolated : f'.isolated = f.isolated
  topLevel : f'.topLevel = f.topLevel

variable {R : Node → Node → Prop}

namespace Frames

variable {fs fs' : Frames} (h : Aligned (Frame.Alike R) fs fs')

include h

theorem lookup_alike (id : FrameId) (name : String) :
    Option.Rel (Value.Alike R) (fs.lookup id name) (fs'.lookup id name) := by
  have hwithin : ∀ fuel id, Option.Rel (Value.Alike R) (fs.lookupWithin name fuel id)
      (fs'.lookupWithin name fuel id) := by
    intro fuel
    induction fuel with
    | zero => exact fun _ => .none
    | succ fuel ih =>
        intro id
        have hid := h.entry id
        unfold lookupWithin
        generalize fs[id]? = o, fs'[id]? = o' at hid
        cases hid with
        | none => exact .none
        | @some f f' hf =>
            have hget := hf.bindings.get? name
            dsimp only
            rw [hf.parent]
            generalize f.bindings.get? name = v, f'.bindings.get? name = v' at hget
            cases hget with
            | some hv => exact .some hv
            | none =>
                cases f.parent with
                | none => exact .none
                | some parent => exact ih parent
  exact hwithin _ id

theorem resolve_alike (id : FrameId) (name : String) (forWrite : Bool) :
    fs'.resolve id name forWrite = fs.resolve id name forWrite := by
  have hwithin : ∀ fuel id, fs'.resolveWithin name forWrite fuel id =
      fs.resolveWithin name forWrite fuel id := by
    intro fuel
    induction fuel with
    | zero => exact fun _ => rfl
    | succ fuel ih =>
        intro id
        have hid := h.entry id
        unfold resolveWithin
        generalize fs[id]? = o, fs'[id]? = o' at hid
        cases hid with
        | none => rfl
        | some hf =>
            dsimp only
            rw [hf.bindings.contains name, hf.isolated, hf.parent]
            simp only [ih]
  exact hwithin _ id

theorem flatten_alike (id : FrameId) : Bindings.Alike R (fs.flatten id) (fs'.flatten id) := by
  have hwithin : ∀ fuel id, Bindings.Alike R (fs.flattenWithin fuel id)
      (fs'.flattenWithin fuel id) := by
    intro fuel
    induction fuel with
    | zero => exact fun _ => .nil
    | succ fuel ih =>
        intro id
        have hid := h.entry id
        unfold flattenWithin
        generalize fs[id]? = o, fs'[id]? = o' at hid
        cases hid with
        | none => exact .nil
        | @some f f' hf =>
            dsimp only
            rw [hf.parent]
            cases f.parent with
            | none => exact .ofList hf.bindings
            | some parent => exact (ih parent).insertAll hf.bindings
  exact hwithin _ id

theorem isTopLevel_alike (id : FrameId) : fs'.isTopLevel id = fs.isTopLevel id := by
  have hid := h.entry id
  unfold isTopLevel
  generalize fs[id]? = o, fs'[id]? = o' at hid
  cases hid with
  | none => rfl
  | some hf => exact hf.topLevel

theorem set_alike (id : FrameId) (name : String) {v v' : Value} (hv : v.Alike R v') (up : Bool) :
    Aligned (Frame.Alike R) (fs.set id name v up) (fs'.set id name v' up) := by
  unfold Frames.set
  rw [resolve_alike h]
  exact h.modify _ fun _ _ hf => { hf with bindings := hf.bindings.insert hv name }

end Frames

/-! ### States -/

/-- Two templates of one name, from related sources. -/
structure Template.Alike (R : Node → Node → Prop) (S : String → String → Prop) (t t' : Template) :
    Prop where
  name : t'.name = t.name
  source : S t.source t'.source
  compiled : Option.Rel (Compiled.Alike R) t.compiled t'.compiled

/-- Two sources of one name that are related. -/
def SameName (S : String → String → Prop) (e e' : String × String) : Prop :=
  e'.1 = e.1 ∧ S e.2 e'.2

/-- A function of the host that tells apart no values that are alike. -/
def Indifferent (R : Node → Node → Prop) (f : CallArgs → Except TemplateError Value) : Prop :=
  ∀ args args', CallArgs.Alike R args args' → Value.Given R (f args) (f args')

/-- Two states that are the same but for trees and sources. -/
structure State.Alike (R : Node → Node → Prop) (S : String → String → Prop) (s s' : State) :
    Prop where
  frames : Aligned (Frame.Alike R) s.frames s'.frames
  contexts : Aligned (Context.Alike R) s.contexts s'.contexts
  parents : s'.parents = s.parents
  depth : s'.depth = s.depth
  next : s'.next = s.next
  templates : Aligned (Template.Alike R S) s.templates s'.templates
  caches : s'.caches = s.caches
  memories : Aligned (List.Forall₂ (SameName S)) s.memories s'.memories
  functions : s'.functions = s.functions
  indifferent : ∀ f ∈ s.functions, Indifferent R f
  notes : s'.notes = s.notes

/-- Two errors that are the same but for the place. -/
structure TemplateError.Alike (e e' : TemplateError) : Prop where
  cause : e'.cause = e.cause
  placed : e'.position.isSome = e.position.isSome
  template : e'.template = e.template
  chain : e'.chain = e.chain

namespace TemplateError.Alike

variable {e e' : TemplateError}

theorem refl (e : TemplateError) : e.Alike e := ⟨rfl, rfl, rfl, rfl⟩

theorem symm (h : e.Alike e') : e'.Alike e :=
  ⟨h.cause.symm, h.placed.symm, h.template.symm, h.chain.symm⟩

theorem trans {e'' : TemplateError} (h : e.Alike e') (h' : e'.Alike e'') : e.Alike e'' :=
  ⟨h'.cause.trans h.cause, h'.placed.trans h.placed, h'.template.trans h.template,
    h'.chain.trans h.chain⟩

theorem locate (h : e.Alike e') (p p' : Position) : (e.locate p).Alike (e'.locate p') :=
  ⟨h.cause, rfl, h.template, h.chain⟩

theorem through (h : e.Alike e') (name : String) : (e.through name).Alike (e'.through name) := by
  unfold TemplateError.through
  rw [h.template]
  cases e.template with
  | none => exact ⟨h.cause, h.placed, rfl, h.chain⟩
  | some owner =>
      dsimp only
      rw [h.chain]
      split
      · exact h
      · exact ⟨h.cause, h.placed, rfl, rfl⟩

end TemplateError.Alike

namespace Likeness

variable {S : String → String → Prop}

/-- Two runs in states that are related place by place. -/
def pointwise (R : Node → Node → Prop) (S : String → String → Prop)
    (hR : Node.Faithful (fun _ _ => True) R) : Likeness where
  World := Unit
  le _ _ := True
  refl _ := trivial
  trans _ _ := trivial
  frame _ := Eq
  frame_le _ h := h
  state _ := State.Alike R S
  node := R
  place _ _ := True
  faithful := hR
  position _ := trivial
  error := TemplateError.Alike
  error_refl := .refl
  locate _ h := h.locate _ _
  through name h := h.through name

variable {hR : Node.Faithful (fun _ _ => True) R} {stray : Cause → Prop}

/-- Frames, contexts and numbers stay related. -/
theorem pointwise_store : ((pointwise R S hR).lockstep stray).Store := by
  have hframe : ∀ {w : Unit} {f f' : Frame},
      ((pointwise R S hR).lockstep stray).Frames w f f' → f.Alike R f' := fun h =>
    ⟨h.bindings, eq_of_optionRel (fun _ _ h => Eq.symm h) h.parent, h.isolated, h.topLevel⟩
  exact {
    newFrames := fun hframes => .change fun _ s s' _ hs => by
      refine ⟨(), trivial, { hs with frames := hs.frames.pushAll (hframes.imp fun _ _ => hframe) }, ?_⟩
      rw [hs.frames.size, ← hframes.length_eq]
      exact List.forall₂_same.2 fun _ _ => rfl
    newFrame := fun hf => .change fun _ s s' _ hs =>
      ⟨(), trivial, { hs with frames := hs.frames.push (hframe hf) }, hs.frames.size.symm⟩
    setName := fun name up hid hv => .modify fun _ s s' _ hs => by
      obtain rfl := hid
      exact { hs with frames := Frames.set_alike hs.frames _ name hv up }
    lookup := fun {_ _ _ id _} name hscope hid => .read fun _ s s' _ hs => by
      obtain rfl := hid
      have hv := Frames.lookup_alike hs.frames id name
      rw [hscope.context]
      generalize s.frames.lookup id name = v, s'.frames.lookup id name = v' at hv
      cases hv with
      | some hv => exact hv
      | none =>
          have hdefault : Context.Alike R default default := ⟨.nil, .nil, .nil, rfl⟩
          exact (hs.contexts.getD _ hdefault).lookup name
    isTopLevel := fun hid => .read fun _ s s' _ hs => by
      obtain rfl := hid
      exact Frames.isTopLevel_alike hs.frames _
    flatten := fun hid => .read fun _ s s' _ hs => by
      obtain rfl := hid
      exact Frames.flatten_alike hs.frames _
    context := fun id => .read fun _ s s' _ hs =>
      hs.contexts.getD id (show Context.Alike R default default from ⟨.nil, .nil, .nil, rfl⟩)
    modifyContext := fun id hf => .modify fun _ s s' _ hs =>
      { hs with contexts := hs.contexts.modify id fun _ _ => hf }
    newContext := fun hc => .change fun _ s s' _ hs =>
      ⟨(), trivial, { hs with contexts := hs.contexts.push hc }, hs.contexts.size⟩
    create := fun context path hblock => .change fun _ s s' _ hs => by
      refine ⟨(), trivial, { hs with parents := ?_ }, ⟨rfl, rfl, ?_, hblock⟩⟩
      · rw [hs.parents]
      · rw [hs.parents]
    extended := fun hscope => .read fun _ s s' _ hs => by
      rw [hscope.parent, hs.parents]
      exact .all rfl
    setExtended := fun id _ hscope => .modify fun _ s s' _ hs => by
      refine { hs with parents := ?_ }
      rw [hscope.parent, hs.parents]
    newNumber := .change fun _ s s' _ hs =>
      ⟨(), trivial, { hs with next := congrArg (· + 1) hs.next }, hs.next⟩
    name := fun id => .read fun _ s s' _ hs => by
      have hid := hs.templates.entry id
      generalize s.templates[id]? = t, s'.templates[id]? = t' at hid
      cases hid with
      | none => rfl
      | some ht => exact ht.name
    depth := fun hs => hs.depth
    enter := fun hs => { hs with depth := congrArg (· + 1) hs.depth }
    leave := fun hs => { hs with depth := congrArg (· - 1) hs.depth }
    -- functions are stored under the same number on both sides, and answer alike if their arguments are alike
    function := fun {_ args args'} number hargs _ s s' _ hs => by
      unfold Render.callFunction
      rw [hs.functions]
      cases hf : s.functions[number]? with
      | none => exact Mirror.ok _ trivial hs (.flat rfl)
      | some f =>
          have hanswer := hs.indifferent f (Array.mem_of_getElem? hf) _ _ hargs
          dsimp only
          generalize f args = a, f args' = a' at hanswer
          cases hanswer with
          | ok hv => exact Mirror.ok _ trivial hs hv
          | error he =>
              subst he
              exact Mirror.failed _ trivial hs (.refl _) }

/-! ### Templates -/

/-- Two sources that a loader found under one name. -/
structure Found (S : String → String → Prop) (x x' : Source) : Prop where
  text : S x.text x'.text
  path : x'.path = x.path
  cacheable : x'.cacheable = x.cacheable

variable {env : Environment} {w : Unit}

/-- A template is read, or the empty one in its place. -/
theorem pointwise_template (hS : S "" "") (id : TemplateId) :
    ((pointwise R S hR).lockstep stray).Acts w (Environment.template id) (Environment.template id)
      fun _ => Template.Alike R S :=
  .read fun _ _ _ _ hs => hs.templates.getD id ⟨rfl, hS, .none⟩

/-- What a template is compiled to is kept. -/
theorem pointwise_compiled {c c' : Compiled} (h : Compiled.Alike R c c') (number : Nat)
    (id : TemplateId) : ((pointwise R S hR).lockstep stray).Acts w
      (Action.change fun s => (c, { s with
        next := number + c.blocks.length
        templates := s.templates.modify id fun t => { t with compiled := some c } }))
      (Action.change fun s => (c', { s with
        next := number + c'.blocks.length
        templates := s.templates.modify id fun t => { t with compiled := some c' } }))
      fun _ => Compiled.Alike R := by
  have hmark : ∀ t t' : Template, Template.Alike R S t t' → Template.Alike R S
      { t with compiled := some c } { t' with compiled := some c' } :=
    fun _ _ ht => ⟨ht.name, ht.source, .some h⟩
  exact .change fun _ s s' _ hs => ⟨(), trivial, { hs with
    next := congrArg (number + ·) h.blocks.length_eq.symm
    templates := hs.templates.modify id hmark }, h⟩

/-- Templates are compiled, if what related sources are compiled to is related. -/
theorem pointwise_compile (hS : ∀ source, S source source)
    (hbuild : ∀ {name source source' number}, S source source' →
      Answers TemplateError.Alike (Compiled.Alike R)
        (Template.build env.config (env.extensions.map Extension.toTagReader) env.asyncFilters name
          source number)
        (Template.build env.config (env.extensions.map Extension.toTagReader) env.asyncFilters name
          source' number)) (id : TemplateId) :
    ((pointwise R S hR).lockstep stray).Acts w (env.compile id) (env.compile id)
      fun _ => Compiled.Alike R :=
  Mirror.compile_acts id (pointwise_template (hS _) id) (fun ht => ht.compiled)
    (.read fun _ _ _ _ hs => hs.next) (fun _ ht => ⟨ht.name, ht.name ▸ hbuild ht.source⟩)
    fun number hc => pointwise_compiled hc number id

theorem pointwise_load (hloaders : ∀ loader ∈ env.loaders, ∀ name,
      ((pointwise R S hR).lockstep stray).Acts () (loader.source name) (loader.source name)
        fun _ => Option.Rel (Found S)) (name : String) (parent : Option String)
    (ignoreMissing : Bool) :
    ((pointwise R S hR).lockstep stray).Acts w (env.load name parent ignoreMissing)
      (env.load name parent ignoreMissing) fun _ => Mirror.Among fun _ => True := by
  refine Mirror.load_acts (F := Found S) (fun full => .read fun _ s s' _ hs => ?_) hloaders
    (fun {x x'} full hx => .change fun _ s s' _ hs => ⟨(), trivial, ?_, ?_⟩) name parent ignoreMissing
  · rw [Environment.cached?, Environment.cached?, hs.caches]
  · unfold Environment.keep
    dsimp only
    rw [hx.cacheable, hx.path]
    split
    · exact { hs with
        templates := hs.templates.push ⟨rfl, hx.text, .none⟩
        caches := by
          dsimp only [Environment.newTemplate]
          rw [hs.caches, hs.templates.size] }
    · exact { hs with templates := hs.templates.push ⟨rfl, hx.text, .none⟩ }
  · unfold Environment.keep
    dsimp only
    rw [hx.cacheable]
    split <;> exact hs.templates.size

end Likeness

end Stencil
