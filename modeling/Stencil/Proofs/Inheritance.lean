/-
**Inheritance comes to an end.**

A template that extends another one is run for the names and blocks that it defines; then the other one
is rendered in its place, which may extend a third one.  Which template is extended is found out by
running code, so it is not known before how far this goes.  Here the way up is told as a relation on
what each template does by itself.  There are only so many names that templates can have, and no name
comes twice: the way up is never longer than that, whatever the code on it does.

Main definitions:

* `Stencil.State.NamedIn` — all templates, and all sources in memory, have names among some;
* `Stencil.Environment.Names` — an environment of a host that keeps to these names;
* `Stencil.Render.ownCode` — what a template does by itself;
* `Stencil.Render.Ascends` — the way up from a template, and what comes of it.

Main results:

* `Stencil.Render.root_handsOn` — a template does what it does by itself, and then hands on;
* `Stencil.Render.ownCode_namedIn` — no step up brings in another name;
* `Stencil.Render.root_ascends` — **rendering goes up a way without repetition**, which ends at a
  template that extends nothing, or with an error.
-/

import Mathlib.Data.Finset.Card
import Stencil.Proofs.Logic.Yields
import Stencil.Proofs.Session.Trees

set_option autoImplicit false

namespace Stencil

variable {env : Environment} {ev : Evaluator} {names : Finset String} {R : State → State → Prop}

/-! ### Names of templates -/

/-- The name of a template; a number that no template has stands for one without a name. -/
def State.nameOf (s : State) (id : TemplateId) : String := ((s.templates[id]?).getD default).name

/-- All templates, and all sources in memory, have names among some. -/
structure State.NamedIn (names : Finset String) (s : State) : Prop where
  templates : ∀ id, s.nameOf id ∈ names
  memories : ∀ sources ∈ s.memories, ∀ source ∈ sources, source.1 ∈ names

namespace State.NamedIn

theorem same {s s' : State} (htemplates : s'.templates = s.templates)
    (hmemories : s'.memories = s.memories) (h : s.NamedIn names) : s'.NamedIn names where
  templates id := by
    have hid := h.templates id
    rwa [nameOf, ← htemplates] at hid
  memories := hmemories ▸ h.memories

/-- Frames, contexts and what is extended have no part in the names of templates. -/
theorem guarded : Guarded (NamedIn names) fun _ => True where
  same h hmemories hs := hs.same h.templates hmemories
  create h := ⟨h.templates, h.memories⟩
  extended _ _ := trivial
  setExtended _ h _ := ⟨h.templates, h.memories⟩

/-- A source of one of the names may become a template. -/
theorem keep {s : State} (h : s.NamedIn names) (name : String) {source : Source}
    (hsource : source.path ∈ names) : (env.keep name source s).2.NamedIn names := by
  have hpush : (Environment.newTemplate source.path source.text s).2.NamedIn names := by
    refine ⟨fun id => ?_, h.memories⟩
    change (((s.templates.push _)[id]?).getD default).name ∈ names
    rw [Array.getElem?_push]
    split
    · exact hsource
    · exact h.templates id
  unfold Environment.keep
  dsimp only
  split
  · exact ⟨hpush.templates, hpush.memories⟩
  · exact hpush

/-- A template keeps its name when it is compiled. -/
theorem compile {s : State} (h : s.NamedIn names) (id : TemplateId) (c : Compiled) (next : Nat) :
    State.NamedIn names { s with
      next := next
      templates := s.templates.modify id fun t => { t with compiled := some c } } := by
  refine ⟨fun other => ?_, h.memories⟩
  have hother := h.templates other
  simp only [nameOf, Array.getElem?_modify] at hother ⊢
  split
  · cases hget : s.templates[other]? <;> rw [hget] at hother <;> exact hother
  · exact hother

end State.NamedIn

/-- An environment of a host that keeps to some names: its loaders find only sources of these. -/
structure Environment.Names (names : Finset String) (env : Environment) : Prop
    extends Environment.Keeping env (State.NamedIn names) where
  source : ∀ loader ∈ env.loaders, ∀ name, (loader.source name).Stays (State.NamedIn names)
    fun found => ∀ source, found = some source → source.path ∈ names

/-- Rendering keeps to the names that the host keeps to. -/
theorem Environment.Names.keeps (henv : env.Names names) :
    ((Likeness.within (State.NamedIn names)).lockstep fun _ => False).Keeps env env := by
  refine henv.toKeeping.keeps State.NamedIn.guarded (fun id _ s hs => ?_) fun name parent ignoreMissing => ?_
  · rw [Policy.Basic.compile_eq]
    split
    · exact ⟨hs, fun _ _ => trivial⟩
    · split
      · exact ⟨hs.compile id _ _, fun _ _ => trivial⟩
      · exact ⟨hs, fun _ he => nomatch he⟩
  · exact load_stays_of (fun _ _ => trivial) henv.source
      (fun full _ hsource hs => ⟨hs.keep full hsource, trivial⟩) name parent ignoreMissing

namespace Render

/-! ### One step up -/

/-- What a template does by itself: its output, and the template that it extends in the end. -/
def ownCode (env : Environment) (ev : Evaluator) (id : TemplateId) (context : ContextId)
    (frame : FrameId) : Action (String × Option TemplateId) := do
  let name := (← Environment.template id).name
  let scope ← Scope.create context name none
  let out ← Action.throughTemplate name do
    let compiled ← env.compile id
    ev.exec scope compiled.root frame
  return (out, ← scope.extended?)

/-- The error of a template, the last one on a way, that extends one whose name is on the way
already. -/
def cycleError (way : List String) (name again : String) : TemplateError :=
  (TemplateError.ofCause (.cyclicInheritance (way ++ [again]))).through name

/-- The error lists the way, and then the name that comes again. -/
theorem cycleError_message (way : List String) (name again : String) :
    (cycleError way name again).message =
      "cyclic template inheritance: " ++ Text.joinWith " -> " (way ++ [again]) := rfl

/-- What comes after the code of a template: its output counts if it extends no other template.  A
template that is on the way already is not gone to again. -/
def handOn (ev : Evaluator) (context : ContextId) (frame : FrameId) (way : List String)
    (name : String) : String × Option TemplateId → Action String
  | (out, none) => fun t => .done (.ok out) t
  | (_, some parent) => fun t =>
    if t.nameOf parent ∈ way then
      .done (.error (cycleError way name (t.nameOf parent))) t
    else ev.root parent context frame way t

theorem handOn_of_mem {context : ContextId} {frame : FrameId} {way : List String} {name out : String}
    {parent : TemplateId} {t : State} (h : t.nameOf parent ∈ way) :
    handOn ev context frame way name (out, some parent) t =
      .done (.error (cycleError way name (t.nameOf parent))) t :=
  if_pos h

theorem handOn_of_notMem {context : ContextId} {frame : FrameId} {way : List String}
    {name out : String} {parent : TemplateId} {t : State} (h : t.nameOf parent ∉ way) :
    handOn ev context frame way name (out, some parent) t = ev.root parent context frame way t :=
  if_neg h

/-- A template does what it does by itself, and then hands on. -/
theorem root_handsOn (id : TemplateId) (context : ContextId) (frame : FrameId) (lineage : List String)
    (s : State) : root env ev id context frame lineage s =
      (ownCode env ev id context frame s).bind
        (handOn ev context frame (lineage ++ [s.nameOf id]) (s.nameOf id)) := by
  have htemplate : ∀ id s (f : Template → Action String),
      (Environment.template id >>= f) s = f ((s.templates[id]?).getD default) s := fun _ _ _ => rfl
  have hassoc : (ownCode env ev id context frame s).bind
      (handOn ev context frame (lineage ++ [s.nameOf id]) (s.nameOf id)) =
        ((Scope.create context (s.nameOf id) none >>= fun scope =>
          Action.throughTemplate (s.nameOf id) (env.compile id >>= fun compiled =>
            ev.exec scope compiled.root frame) >>= fun out =>
          scope.extended? >>= fun extended => pure (out, extended)) >>=
            handOn ev context frame (lineage ++ [s.nameOf id]) (s.nameOf id)) s := rfl
  rw [hassoc, root, htemplate]
  simp only [Action.bind_assoc]
  -- both sides begin with the template's own code, and differ in how they say what follows
  refine congrFun (congrArg (Scope.create context (s.nameOf id) none >>= ·) (funext fun scope => ?_)) s
  refine congrArg (Action.throughTemplate _ _ >>= ·) (funext fun out => ?_)
  refine congrArg (scope.extended? >>= ·) (funext fun extended => funext fun t => ?_)
  cases extended with
  | none => rfl
  | some parent =>
      change (Environment.template parent >>= _) t = handOn ev context frame _ _ (out, some parent) t
      rw [htemplate]
      simp only [List.contains_iff_mem]
      split
      · rename_i hmem
        exact (handOn_of_mem hmem).symm
      · rename_i hmem
        exact (handOn_of_notMem hmem).symm

/-- No step up brings in another name. -/
theorem ownCode_namedIn (henv : env.Names names)
    (hothers : ∀ s t, R s t → s.NamedIn names → t.NamedIn names) {depth : Nat} {id : TemplateId}
    {context : ContextId} {frame : FrameId} {s u : State}
    {answer : Except TemplateError (String × Option TemplateId)} (hs : s.NamedIn names)
    (h : (ownCode env (.tied env depth) id context frame s).Yields R answer u) : u.NamedIn names := by
  have hM := henv.keeps
  have hev := Evaluator.Mirrored.tied hM (fun _ _ => Environment.within_reaches) depth
  have hacts : ((Likeness.within (State.NamedIn names)).lockstep fun _ => False).Acts ()
      (ownCode env (.tied env depth) id context frame) (ownCode env (.tied env depth) id context frame)
      fun _ _ _ => True := by
    refine (hM.name id).bind fun _ t t' _ ht => ?_
    dsimp only
    rw [ht]
    refine (hM.create context t.name .none).bind fun _ scope scope' _ hscope => ?_
    refine Mirror.Acts.bind (Q := Mirror.Equal _) (.throughTemplate ?_ _) fun _ _ _ _ _ => ?_
    · exact (hM.compile id trivial).bind fun _ _ _ _ hc => hev.exec hscope hc.root rfl
    · exact (hM.extended hscope).bind fun _ _ _ _ _ => .pure fun _ _ => trivial
  obtain ⟨_, u', _, _, _, ⟨rfl, hu⟩, _⟩ := (hacts () s s trivial ⟨rfl, hs⟩).yields (R := R) (by
    rintro _ _ s t ⟨rfl, hs⟩ hst
    exact ⟨t, hst, rfl, hothers _ t hst hs⟩) h
  exact hu

/-! ### The way up -/

/-- The way up from a template behind others, where each template but the last one hands on to the
one that it extends: the names of all templates on it, and what comes of it. -/
inductive Ascends (env : Environment) (R : State → State → Prop) (context : ContextId)
    (frame : FrameId) : Nat → TemplateId → List String → State → List String →
      Except TemplateError String → State → Prop
  /-- The code of the template fails. -/
  | fails {depth : Nat} {id : TemplateId} {lineage : List String} {s u : State} {e : TemplateError}
    (hown : (ownCode env (.tied env depth) id context frame s).Yields R (.error e) u) :
    Ascends env R context frame depth id lineage s (lineage ++ [s.nameOf id]) (.error e) u
  /-- The template extends no other one. -/
  | ends {depth : Nat} {id : TemplateId} {lineage : List String} {s u : State} {out : String}
    (hown : (ownCode env (.tied env depth) id context frame s).Yields R (.ok (out, none)) u) :
    Ascends env R context frame depth id lineage s (lineage ++ [s.nameOf id]) (.ok out) u
  /-- The template extends one whose name is on the way already. -/
  | turnsBack {depth : Nat} {id parent : TemplateId} {lineage : List String} {s u : State}
    {out : String}
    (hown : (ownCode env (.tied env depth) id context frame s).Yields R (.ok (out, some parent)) u)
    (hparent : u.nameOf parent ∈ lineage ++ [s.nameOf id]) :
    Ascends env R context frame depth id lineage s (lineage ++ [s.nameOf id])
      (.error (cycleError (lineage ++ [s.nameOf id]) (s.nameOf id) (u.nameOf parent))) u
  /-- The template extends one of another name, and the way goes on from there. -/
  | goesOn {depth : Nat} {id parent : TemplateId} {lineage way : List String} {s t u : State}
    {out : String} {answer : Except TemplateError String}
    (hown : (ownCode env (.tied env (depth + 1)) id context frame s).Yields R
      (.ok (out, some parent)) t)
    (hparent : t.nameOf parent ∉ lineage ++ [s.nameOf id])
    (hup : Ascends env R context frame depth parent (lineage ++ [s.nameOf id]) t way answer u) :
    Ascends env R context frame (depth + 1) id lineage s way answer u

variable {context : ContextId} {frame : FrameId} {depth : Nat} {id : TemplateId} {s u : State}
  {answer : Except TemplateError String}

/-- Rendering fails with what a template does by itself, or comes to what comes after that. -/
theorem yields_root_iff {lineage : List String} :
    ((Evaluator.tied env (depth + 1)).root id context frame lineage s).Yields R answer u ↔
      (∃ e, answer = .error e ∧
        (ownCode env (.tied env depth) id context frame s).Yields R (.error e) u) ∨
      ∃ r t, (ownCode env (.tied env depth) id context frame s).Yields R (.ok r) t ∧
        (handOn (.tied env depth) context frame (lineage ++ [s.nameOf id]) (s.nameOf id) r t).Yields R
          answer u := by
  have hroot : (Evaluator.tied env (depth + 1)).root id context frame lineage s =
    (ownCode env (.tied env depth) id context frame s).bind _ := root_handsOn id context frame lineage s
  rw [hroot]
  exact Poll.yields_bind_iff

/-- What comes of a way up is what rendering comes to. -/
theorem Ascends.yields {lineage way : List String}
    (h : Ascends env R context frame depth id lineage s way answer u) :
    ((Evaluator.tied env (depth + 1)).root id context frame lineage s).Yields R answer u := by
  induction h with
  | fails hown => exact yields_root_iff.2 (.inl ⟨_, rfl, hown⟩)
  | ends hown => exact yields_root_iff.2 (.inr ⟨_, _, hown, .done⟩)
  | turnsBack hown hparent =>
      refine yields_root_iff.2 (.inr ⟨_, _, hown, ?_⟩)
      rw [handOn_of_mem hparent]
      exact .done
  | goesOn hown hparent _ ih =>
      refine yields_root_iff.2 (.inr ⟨_, _, hown, ?_⟩)
      rw [handOn_of_notMem hparent]
      exact ih

/-- Where all names are on the way already, the next template has one of these. -/
theorem mem_of_card_le {way : List String} (hway : way.Nodup) (hnames : ∀ name ∈ way, name ∈ names)
    (hcard : names.card ≤ way.length) {name : String} (hname : name ∈ names) : name ∈ way := by
  have hsub : way.toFinset ⊆ names := fun name h => hnames name (List.mem_toFinset.1 h)
  have hall : way.toFinset = names :=
    Finset.eq_of_subset_of_card_le hsub (by rwa [List.toFinset_card_of_nodup hway])
  exact List.mem_toFinset.1 (hall ▸ hname)

/-- One step up: the way ends at a template, or goes on with one of another name. -/
theorem ascends_or_goesOn {lineage : List String}
    (h : ((Evaluator.tied env (depth + 1)).root id context frame lineage s).Yields R answer u) :
    Ascends env R context frame depth id lineage s (lineage ++ [s.nameOf id]) answer u ∨
      ∃ out parent t,
        (ownCode env (.tied env depth) id context frame s).Yields R (.ok (out, some parent)) t ∧
        t.nameOf parent ∉ lineage ++ [s.nameOf id] ∧
        ((Evaluator.tied env depth).root parent context frame (lineage ++ [s.nameOf id]) t).Yields R
          answer u := by
  rcases yields_root_iff.1 h with ⟨e, rfl, hown⟩ | ⟨⟨out, _ | parent⟩, t, hown, hnext⟩
  · exact .inl (.fails hown)
  · cases hnext
    exact .inl (.ends hown)
  · by_cases hparent : t.nameOf parent ∈ lineage ++ [s.nameOf id]
    · rw [handOn_of_mem hparent] at hnext
      cases hnext
      exact .inl (.turnsBack hown hparent)
    · rw [handOn_of_notMem hparent] at hnext
      exact .inr ⟨out, parent, t, hown, hparent, hnext⟩

/-- Rendering goes up a way without repetition behind one without repetition, if the names that are
left are few enough. -/
theorem ascends_of_yields (henv : env.Names names)
    (hothers : ∀ s t, R s t → s.NamedIn names → t.NamedIn names) {lineage : List String}
    (hlineage : (lineage ++ [s.nameOf id]).Nodup ∧ ∀ name ∈ lineage ++ [s.nameOf id], name ∈ names)
    (hdepth : names.card ≤ (lineage ++ [s.nameOf id]).length + depth) (hs : s.NamedIn names)
    (h : ((Evaluator.tied env (depth + 1)).root id context frame lineage s).Yields R answer u) :
    ∃ way, Ascends env R context frame depth id lineage s way answer u ∧ way.Nodup ∧
      ∀ name ∈ way, name ∈ names := by
  induction depth generalizing id lineage s with
  | zero =>
      rcases ascends_or_goesOn h with hend | ⟨out, parent, t, hown, hparent, -⟩
      · exact ⟨_, hend, hlineage⟩
      · -- all names are on the way already
        have ht := ownCode_namedIn henv hothers hs hown
        exact absurd (mem_of_card_le hlineage.1 hlineage.2 hdepth (ht.templates parent)) hparent
  | succ depth ih =>
      rcases ascends_or_goesOn h with hend | ⟨out, parent, t, hown, hparent, hnext⟩
      · exact ⟨_, hend, hlineage⟩
      · have ht := ownCode_namedIn henv hothers hs hown
        have hlonger : (lineage ++ [s.nameOf id] ++ [t.nameOf parent]).Nodup ∧
            ∀ name ∈ lineage ++ [s.nameOf id] ++ [t.nameOf parent], name ∈ names := by
          refine ⟨hlineage.1.append (List.nodup_singleton _) (by simpa using hparent), fun name h => ?_⟩
          rcases List.mem_append.1 h with h | h
          · exact hlineage.2 name h
          · exact List.mem_singleton.1 h ▸ ht.templates parent
        have hleft : names.card ≤ (lineage ++ [s.nameOf id] ++ [t.nameOf parent]).length + depth := by
          rw [List.length_append, List.length_singleton]
          omega
        obtain ⟨way, hup, hway⟩ := ih hlonger hleft ht hnext
        exact ⟨way, .goesOn hown hparent hup, hway⟩

end Render

/-! ### Hosts -/

namespace Environment

/-- A host that registers nothing of its own keeps to the names of its sources. -/
theorem Bare.keepsToNames {s : State} (h : env.Bare s) (names : Finset String) : env.Names names where
  filter e he v args s hs := by
    rw [h.filters] at he
    obtain ⟨f, -, rfl⟩ := List.mem_map.1 he
    exact ⟨⟨hs.templates, hs.memories⟩, fun _ _ => trivial⟩
  tag x hx := by
    rw [h.extensions] at hx
    cases hx
  source loader hloader name s hs := by
    obtain ⟨number, cacheable, rfl⟩ := h.loaders loader hloader
    refine ⟨hs, fun found hfound source hsource => ?_⟩
    cases hfound
    obtain ⟨text, htext, rfl⟩ := Option.map_eq_some_iff.1 hsource
    have hmem := List.mem_reverse.1 (Named.mem_of_get? htext)
    cases hmemory : s.memories[number]? with
    | none => simp [hmemory] at hmem
    | some sources =>
        rw [hmemory, Option.getD_some] at hmem
        exact hs.memories sources (Array.mem_of_getElem? hmemory) _ hmem

/-- Sources in memory are loaded by their names. -/
theorem ofMemory_namedIn {names : Finset String} {sources : List (String × String)}
    (hnameless : "" ∈ names) (hsources : ∀ source ∈ sources, source.1 ∈ names) :
    (ofMemory sources).2.NamedIn names := by
  have hmemories : (ofMemory sources).2.memories = #[sources] := by
    unfold ofMemory
    simp only [foldl_insert]
    rfl
  have htemplates := (ofMemory_bare sources).templates
  refine ⟨fun id => ?_, fun all hall => ?_⟩
  · rw [State.nameOf, htemplates]
    exact hnameless
  · rw [hmemories] at hall
    obtain rfl : all = sources := by simpa using hall
    exact hsources

end Environment

/-! ### Rendering -/

namespace Render

/-- **Rendering goes up a way without repetition** and comes to an end, if only so many names can be
loaded: as told by the way up, either at a template that extends nothing, or because the code of a
template fails, or because the next template has a name that is on the way already. -/
theorem root_ascends (henv : env.Names names)
    (hothers : ∀ s t, R s t → s.NamedIn names → t.NamedIn names) (hR : ∀ s, ∃ t, R s t)
    {depth : Nat} (hdepth : names.card ≤ depth + 1) {s : State} (hs : s.NamedIn names) (id : TemplateId)
    (context : ContextId) (frame : FrameId) :
    (∃ answer u, ((Evaluator.tied env (depth + 1)).root id context frame [] s).Yields R answer u) ∧
      ∀ answer u, ((Evaluator.tied env (depth + 1)).root id context frame [] s).Yields R answer u ↔
        ∃ way, Ascends env R context frame depth id [] s way answer u ∧ way.Nodup ∧
          ∀ name ∈ way, name ∈ names := by
  refine ⟨Poll.exists_yields hR _, fun answer u => ⟨fun h => ?_, ?_⟩⟩
  · refine ascends_of_yields henv hothers ⟨by simp, fun name h => ?_⟩ ?_ hs h
    · obtain rfl := List.mem_singleton.1 h
      exact hs.templates id
    · rw [List.nil_append, List.length_singleton]
      omega
  · rintro ⟨way, hup, -⟩
    exact hup.yields

/-- Templates of which the first one tells the last one what to extend. -/
def windingSources : List (String × String) := [
  ("a", "\x7b% set next = 'b' %\x7d\x7b% extends next %\x7d"),
  ("b", "\x7b% extends 'c' %\x7d"),
  ("c", "\x7b% extends next %\x7d")]

/-- The first one is about to be rendered. -/
def winding : Environment × State :=
  let (env, s) := Environment.ofMemory windingSources
  let (_, s) := env.keep "a" ⟨"\x7b% set next = 'b' %\x7d\x7b% extends next %\x7d", "a", true⟩ s
  (env, { s with frames := #[Frames.root], contexts := #[.ofBlocks env.globals [] []] })

/-- The way turns back to a template in its middle. -/
theorem root_ascends_of_winding :
    ∃ run, ((Evaluator.tied winding.1 21).root 0 0 0 [] winding.2).finish 0 = run ∧
      run.1.map (Except.map fun _ => ()) = some (.error (cycleError ["a", "b", "c"] "c" "b")) ∧
      ∃ names : Finset String, names.card ≤ 20 + 1 ∧ winding.2.NamedIn names ∧
        ∃ way, Ascends winding.1 Eq 0 0 20 0 [] winding.2 way
          (.error (cycleError ["a", "b", "c"] "c" "b")) run.2 ∧ way.Nodup ∧
            ∀ name ∈ way, name ∈ names := by
  refine ⟨_, rfl, (fun h => ⟨h, ?_⟩) ?computed⟩
  case computed => decide +kernel
  have hyields := Poll.Yields.of_finish (R := Eq) (fun _ => rfl) (Poll.eq_of_error h)
  have hnames : winding.2.NamedIn {"", "a", "b", "c"} := by
    have hmemory : (Environment.ofMemory windingSources).2.NamedIn {"", "a", "b", "c"} :=
      Environment.ofMemory_namedIn (by decide) (by decide)
    have hkept : ((Environment.ofMemory windingSources).1.keep "a"
        ⟨"\x7b% set next = 'b' %\x7d\x7b% extends next %\x7d", "a", true⟩
          (Environment.ofMemory windingSources).2).2.NamedIn {"", "a", "b", "c"} :=
      hmemory.keep "a" (by decide)
    exact ⟨hkept.templates, hkept.memories⟩
  have hcard : ({"", "a", "b", "c"} : Finset String).card ≤ 20 + 1 := by decide
  have hbare := Environment.ofMemory_bare windingSources
  obtain ⟨-, hway⟩ := root_ascends (R := Eq) (hbare.keepsToNames _) (fun s t hst hs => hst ▸ hs)
    (fun s => ⟨s, rfl⟩) hcard hnames 0 0 0
  exact ⟨_, hcard, hnames, (hway _ _).1 hyields⟩

end Render

end Stencil
