/-
**What a macro is called with.**

A call gives arguments by place and by name.  A macro takes them for its parameters one after the other,
and works out the defaults of those that got none, each where those before it are bound.  A default is
an expression, so it may fail, wait, or call other macros, while the frame of the call is still being
filled.

Here it is told, for each parameter by itself, what it is bound to when the body starts: its argument, if
there is one, and else what its default denotes in the frame in which exactly the parameters before it
are bound.

Main definitions:

* `Stencil.MacroDef.signature` — the parameters of a macro, with their defaults;
* `Stencil.State.Holds`, `Stencil.State.Leaves` — what a frame binds, and that the others leave it so;
* `Stencil.Render.Chosen`, `Stencil.Render.Filled` — the value of a parameter, and of all of them;
* `Stencil.Render.Entered` — a macro is about to take its arguments;
* `Stencil.Render.MacroRun` — what a call of a macro comes to.

Main results:

* `Stencil.Template.build_defaults` — the defaults of what a template declares are expressions;
* `Stencil.Render.takeArgument_spec` — arguments that are taken in turn are those with the place or the
  name of the parameter;
* `Stencil.Render.eval_holds` — the frame of a call is the same after a default was worked out in it;
* `Stencil.Render.bindAll_yields` — parameters are filled one after the other;
* `Stencil.Render.callMacro_yields` — **each parameter is bound to its argument or its default**.
-/

import Stencil.Proofs.Logic.World
import Stencil.Proofs.Logic.Yields
import Stencil.Proofs.Mirror.Terms
import Stencil.Proofs.Syntax.Prepared

set_option autoImplicit false

namespace Stencil

variable {env : Environment} {ev : Evaluator} {R : State → State → Prop} {scope : Scope}
  {frame : FrameId} {args : CallArgs} {b : Bindings} {s t u : State}

/-! ### Parameters and frames -/

/-- The parameters of a macro, each with its default if it has one. -/
def MacroDef.signature (declared : MacroDef) : List (String × Option Node) :=
  declared.parameters.map (fun name => (name, none)) ++
    declared.defaults.map fun (name, default) => (name, some default)

/-- The defaults of parameters that are made of expressions are expressions. -/
theorem Node.Term.defaults {parameters : Node} (h : parameters.Term) :
    ∀ entry ∈ Render.defaultParameters parameters, entry.2.Term := by
  intro entry hentry
  obtain ⟨group, hgroup, hmem⟩ := List.mem_flatMap.1 hentry
  have hterm := h.member hgroup
  split at hmem
  · obtain ⟨pair, hpair, hvalue⟩ := List.mem_filterMap.1 hmem
    have hentries := hterm.member hpair
    split at hvalue
    · cases hvalue
      exact hentries.part
    · cases hvalue
  · cases hmem

/-- The defaults of every macro that a template declares are expressions. -/
theorem Template.build_defaults {config : Config} {filters : List String} {name source : String}
    {number : Nat} {c : Compiled} (h : Template.build config [] filters name source number = .ok c)
    {p : Position} {role : MacroRole} {label : String} {parameters body : Node}
    (hdefinition : .definition p role label parameters body ∈ c.root.walk fun _ => false) :
    ∀ entry ∈ Render.defaultParameters parameters, entry.2.Term := by
  have hneat := ((build_regular h).1.below hdefinition).self.1
  exact Node.Term.defaults hneat

/-- A frame binds some names, and no others. -/
def State.Holds (s : State) (frame : FrameId) (b : Bindings) : Prop :=
  (s.frames[frame]?).map Frame.bindings = some b

/-- What the others may do to a state in which a frame is private: no frame moves, and this one binds
what it bound. -/
structure State.Leaves (s : State) (frame : FrameId) (t : State) : Prop where
  frames : Extends Frame.SamePlace s.frames t.frames
  kept : (Place.frame frame).Kept s t

theorem State.Holds.leaves (h : s.Holds frame b) (ht : s.Leaves frame t) : t.Holds frame b :=
  Eq.trans ht.kept h

/-- The state after a name was bound in a frame. -/
def State.setting (s : State) (frame : FrameId) (name : String) (v : Value) : State :=
  { s with frames := s.frames.set frame name v false }

/-- A new name is bound in a frame. -/
theorem State.Holds.setting (h : s.Holds frame b) {name : String} (hname : ∀ m ∈ b, m.1 ≠ name)
    (v : Value) : (s.setting frame name v).Holds frame (b ++ [(name, v)]) := by
  obtain ⟨f, hf, rfl⟩ := Option.map_eq_some_iff.1 h
  change ((s.frames.modify frame _)[frame]?).map Frame.bindings = _
  rw [Array.getElem?_modify, if_pos rfl, hf]
  exact congrArg some (Named.insert_of_forall_ne v hname)

namespace Render

/-! ### Arguments taken in turn -/

/-- The arguments that are left when those for some parameters were taken. -/
structure Left (args : CallArgs) (names : List String) (left : CallArgs) : Prop where
  positional : left.positional = args.positional.drop names.length
  keywords : ∀ name, name ∉ names → left.keywords.get? name = args.keywords.get? name

/-- The argument that a parameter takes is the one with its place or its name. -/
theorem takeArgument_spec {names : List String} {left : CallArgs} (h : Left args names left)
    {name : String} (hname : name ∉ names) :
    (takeArgument left name).1 = args.get? names.length name ∧
      Left args (names ++ [name]) (takeArgument left name).2 := by
  have hother : ∀ other, other ∉ names ++ [name] → other ∉ names ∧ other ≠ name := by
    intro other hother
    simpa using hother
  cases hleft : left.positional with
  | cons v rest =>
      have hdrop : args.positional.drop names.length = v :: rest := h.positional.symm.trans hleft
      have hget : args.positional[names.length]? = some v := by
        rw [← List.head?_drop, hdrop, List.head?_cons]
      have hrest : args.positional.drop (names ++ [name]).length = rest := by
        rw [List.length_append, ← List.drop_drop, hdrop, List.length_singleton, List.drop_one, List.tail_cons]
      simp only [takeArgument, hleft, CallArgs.get?, hget]
      exact ⟨rfl, hrest.symm, fun other ho => h.keywords other (hother other ho).1⟩
  | nil =>
      have hdrop : args.positional.drop names.length = [] := h.positional.symm.trans hleft
      have hget : args.positional[names.length]? = none := by
        rw [← List.head?_drop, hdrop, List.head?_nil]
      have hrest : args.positional.drop (names ++ [name]).length = [] := by
        rw [List.length_append, ← List.drop_drop, hdrop, List.drop_nil]
      have hkeyword := h.keywords name hname
      simp only [takeArgument, hleft, CallArgs.get?, hget, Option.orElse_none, ← hkeyword]
      cases hk : left.keywords.get? name with
      | none =>
          exact ⟨rfl, hleft.trans hrest.symm, fun other ho => h.keywords other (hother other ho).1⟩
      | some v =>
          refine ⟨rfl, hrest.symm, fun other ho => ?_⟩
          rw [← h.keywords other (hother other ho).1]
          exact Named.get?_erase_of_ne _ (hother other ho).2

/-! ### Values of parameters -/

/-- The value of a parameter with a place and a name, where some others are bound before it, and the
state in which it is known. -/
inductive Chosen (R : State → State → Prop) (ev : Evaluator) (scope : Scope) (frame : FrameId)
    (args : CallArgs) (place : Nat) (before : Bindings) (name : String) (s : State) :
    Option Node → Value → State → Prop
  /-- It has an argument. -/
  | argument {default : Option Node} {v : Value} (h : args.get? place name = some v) :
    Chosen R ev scope frame args place before name s default v s
  /-- It has neither argument nor default. -/
  | missing (h : args.get? place name = none) :
    Chosen R ev scope frame args place before name s none .undefined s
  /-- Its default is evaluated where exactly the parameters before it are bound. -/
  | default {n : Node} {v : Value} {t : State} (h : args.get? place name = none)
    (hbefore : s.Holds frame before) (heval : (ev.eval scope n frame s).Yields R (.ok v) t) :
    Chosen R ev scope frame args place before name s (some n) v t

/-- Parameters are bound one after the other, each to its value; what they are bound to, and the state
in which they are. -/
inductive Filled (R : State → State → Prop) (ev : Evaluator) (scope : Scope) (frame : FrameId)
    (args : CallArgs) (s : State) : List (String × Option Node) → Bindings → State → Prop
  | nil : Filled R ev scope frame args s [] [] s
  | snoc {signature : List (String × Option Node)} {name : String} {default : Option Node}
    {b : Bindings} {v : Value} {t u : State} (h : Filled R ev scope frame args s signature b t)
    (hv : Chosen R ev scope frame args signature.length b name t default v u) :
    Filled R ev scope frame args s (signature ++ [(name, default)]) (b ++ [(name, v)])
      (u.setting frame name v)

/-- A default that is needed fails, where exactly the parameters before it are bound. -/
inductive DefaultFails (R : State → State → Prop) (ev : Evaluator) (scope : Scope) (frame : FrameId)
    (args : CallArgs) (s : State) (signature : List (String × Option Node)) (e : TemplateError)
    (u : State) : Prop
  | of_eval {filled after : List (String × Option Node)} {name : String} {n : Node} {b : Bindings}
    {t : State} (hsignature : signature = filled ++ (name, some n) :: after)
    (hfilled : Filled R ev scope frame args s filled b t)
    (hargument : args.get? filled.length name = none) (hbefore : t.Holds frame b)
    (heval : (ev.eval scope n frame t).Yields R (.error e) u) :
    DefaultFails R ev scope frame args s signature e u

variable {signature : List (String × Option Node)}

/-- The names that are bound are those of the parameters. -/
theorem Filled.names (h : Filled R ev scope frame args s signature b t) :
    b.map Prod.fst = signature.map Prod.fst := by
  induction h with
  | nil => rfl
  | snoc h hv ih => rw [List.map_append, List.map_append, ih, List.map_singleton, List.map_singleton]

/-! ### Parameters in turn -/

/-- The value of a parameter that takes an argument if there is one. -/
def parameterValue (ev : Evaluator) (scope : Scope) (frame : FrameId) :
    Option Node → Option Value → Action Value
  | _, some v => pure v
  | none, none => pure .undefined
  | some n, none => ev.eval scope n frame

/-- Parameters are bound, with defaults or without; the arguments that are left. -/
def bindAll (ev : Evaluator) (scope : Scope) (frame : FrameId) (args : CallArgs) :
    List (String × Option Node) → Action CallArgs
  | [] => pure args
  | (name, default) :: rest => do
    let v ← parameterValue ev scope frame default (takeArgument args name).1
    Action.setName frame name v false
    bindAll ev scope frame (takeArgument args name).2 rest

theorem bindAll_plain (names : List String) (rest : List (String × Option Node)) (args : CallArgs) :
    (bindPlain frame args names >>= fun left => bindAll ev scope frame left rest) =
      bindAll ev scope frame args (names.map (fun name => (name, none)) ++ rest) := by
  induction names generalizing args with
  | nil => rfl
  | cons name names ih =>
      have hplain : bindPlain frame args (name :: names) =
          Action.setName frame name ((takeArgument args name).1.getD .undefined) false >>= fun _ =>
            bindPlain frame (takeArgument args name).2 names := rfl
      rw [hplain, Action.bind_assoc, List.map_cons, List.cons_append, bindAll, ← ih]
      cases (takeArgument args name).1 <;> rfl

theorem bindAll_defaults (defaults : List (String × Node)) (args : CallArgs) :
    bindDefaults ev scope frame args defaults =
      bindAll ev scope frame args (defaults.map fun (name, default) => (name, some default)) := by
  induction defaults generalizing args with
  | nil => rfl
  | cons entry rest ih =>
      obtain ⟨name, default⟩ := entry
      rw [List.map_cons, bindAll, bindDefaults]
      simp only [ih]
      cases (takeArgument args name).1 <;> rfl

/-- The parameters of a macro are bound in turn, and then the body of the call. -/
theorem bindParameters_eq (declared : MacroDef) (args : CallArgs) :
    bindParameters ev scope frame declared args =
      bindAll ev scope frame args declared.signature >>= fun left =>
        match left.keywords.get? "caller" with
        | some caller => Action.setName frame "caller" caller false
        | none => pure () := by
  unfold bindParameters MacroDef.signature
  rw [← bindAll_plain, Action.bind_assoc]
  refine congrArg (bindPlain frame args declared.parameters >>= ·) (funext fun left => ?_)
  exact congrArg (· >>= _) (bindAll_defaults declared.defaults left)

/-- The frame of a call is the same after a default was worked out in it, if the others leave it alone. -/
theorem eval_holds (henv : env.LeavesFrames) {depth : Nat} {n : Node} (hn : n.Term)
    (hothers : ∀ s t, R s t → s.Leaves frame t) {answer : Except TemplateError Value}
    (hs : s.Holds frame b)
    (h : ((Evaluator.tied env depth).eval scope n frame s).Yields R answer t) : t.Holds frame b := by
  have hspares : s.Spares frame b ∅ := ⟨hs, id, fun _ hid => hid.elim⟩
  have hacts := henv.sparesOwn frame b depth ∅ scope n hn
  have hlockstep := hacts (∅ : Set FrameId) s s subset_rfl ⟨rfl, hspares⟩
  obtain ⟨_, _, _, _, _, ⟨-, ht⟩, _⟩ := hlockstep.yields (R := R) (fun {v s s' t} hs hst => by
    obtain ⟨rfl, hs⟩ := hs
    have hleaves := hothers s' t hst
    refine ⟨t, hst, rfl, State.Holds.leaves hs.bindings hleaves, hs.notMem, fun id hid => ?_⟩
    obtain ⟨f, hf, hclosed⟩ := hs.closed id hid
    obtain ⟨g, hg, hplace⟩ := hleaves.frames id f hf
    exact ⟨g, hg, fun p hp => hclosed p (hplace.1 ▸ hp)⟩) h
  exact ht.bindings

/-- A parameter gets its value, or its default fails. -/
theorem parameterValue_yields (henv : env.LeavesFrames) (hothers : ∀ s t, R s t → s.Leaves frame t)
    {depth place : Nat} {name : String} {default : Option Node} (hterm : ∀ n ∈ default, n.Term)
    (hs : s.Holds frame b) {answer : Except TemplateError Value}
    (h : (parameterValue (.tied env depth) scope frame default (args.get? place name) s).Yields R
      answer t) :
    (∃ v, answer = .ok v ∧ Chosen R (.tied env depth) scope frame args place b name s default v t ∧
      t.Holds frame b) ∨
    ∃ n e, default = some n ∧ args.get? place name = none ∧ answer = .error e ∧
      ((Evaluator.tied env depth).eval scope n frame s).Yields R (.error e) t := by
  cases hget : args.get? place name with
  | some v =>
      rw [hget] at h
      obtain ⟨rfl, rfl⟩ : answer = .ok v ∧ t = s := by cases default <;> exact Poll.yields_done_iff.1 h
      exact .inl ⟨v, rfl, .argument hget, hs⟩
  | none =>
      rw [hget] at h
      cases default with
      | none =>
          obtain ⟨rfl, rfl⟩ := Poll.yields_done_iff.1 h
          exact .inl ⟨_, rfl, .missing hget, hs⟩
      | some n =>
          have ht := eval_holds henv (hterm n rfl) hothers hs h
          cases answer with
          | ok v => exact .inl ⟨v, rfl, .default hget hs h, ht⟩
          | error e => exact .inr ⟨n, e, rfl, rfl, rfl, h⟩

/-- What filling the parameters comes to behind some that are filled: all of them are filled, or a
default fails. -/
theorem bindAll_yields (henv : env.LeavesFrames) (hothers : ∀ s t, R s t → s.Leaves frame t)
    {depth : Nat} {before rest : List (String × Option Node)}
    (hnames : ((before ++ rest).map Prod.fst).Nodup) (hterms : ∀ entry ∈ rest, ∀ n ∈ entry.2, n.Term)
    {left : CallArgs} (hleft : Left args (before.map Prod.fst) left)
    (hfilled : Filled R (.tied env depth) scope frame args s before b t) (ht : t.Holds frame b)
    {answer : Except TemplateError CallArgs}
    (h : (bindAll (.tied env depth) scope frame left rest t).Yields R answer u) :
    (∃ left' b', answer = .ok left' ∧ Left args ((before ++ rest).map Prod.fst) left' ∧
      Filled R (.tied env depth) scope frame args s (before ++ rest) b' u ∧ u.Holds frame b') ∨
    ∃ e, answer = .error e ∧
      DefaultFails R (.tied env depth) scope frame args s (before ++ rest) e u := by
  -- the frame binds the parameters that were gone through, and only arguments of others are left
  induction rest generalizing before b left t with
  | nil =>
      obtain ⟨rfl, rfl⟩ := Poll.yields_done_iff.1 h
      rw [List.append_nil]
      exact .inl ⟨left, b, rfl, hleft, hfilled, ht⟩
  | cons entry rest ih =>
      obtain ⟨name, default⟩ := entry
      have hsplit : before ++ (name, default) :: rest = before ++ [(name, default)] ++ rest := by simp
      rw [hsplit] at hnames ⊢
      have hfresh : name ∉ before.map Prod.fst := by
        have hapart := hnames
        rw [List.map_append, List.map_append] at hapart
        have hbefore := (List.nodup_append.1 (List.nodup_append.1 hapart).1).2.2
        exact fun hmem => hbefore name hmem name (List.mem_singleton_self _) rfl
      obtain ⟨htake, hleft'⟩ := takeArgument_spec hleft hfresh
      rw [List.length_map] at htake
      rw [bindAll, htake] at h
      have hterm : ∀ n ∈ default, n.Term := hterms _ List.mem_cons_self
      rcases Action.yields_bind_iff.1 h with ⟨e, rfl, hvalue⟩ | ⟨v, t', hvalue, hrest⟩
      · rcases parameterValue_yields henv hothers hterm ht hvalue with
          ⟨v, hv, -⟩ | ⟨n, e', rfl, hnone, he, heval⟩
        · cases hv
        · cases he
          exact .inr ⟨e, rfl, .of_eval hsplit.symm hfilled hnone ht heval⟩
      · rcases parameterValue_yields henv hothers hterm ht hvalue with
          ⟨v', hv, hchosen, ht'⟩ | ⟨n, e, -, -, hv, -⟩
        · cases hv
          have hnew : ∀ m ∈ b, m.1 ≠ name := fun m hm heq =>
            hfresh (hfilled.names ▸ heq ▸ List.mem_map_of_mem hm)
          refine ih hnames (fun entry hentry => hterms entry (List.mem_cons_of_mem _ hentry)) ?_
            (hfilled.snoc hchosen) (ht'.setting hnew v) hrest
          rw [List.map_append]
          exact hleft'
        · cases hv

/-! ### Calls of macros -/

/-- The frame that the body of a macro runs in, when it is called in a state. -/
def ownFrame (s : State) (closure : Option Bindings) : FrameId :=
  s.frames.size + if closure.isSome then 1 else 0

/-- What the body of a call is bound to, if there is one. -/
def callerBinding (args : CallArgs) : Bindings :=
  match args.keywords.get? "caller" with
  | some caller => [("caller", caller)]
  | none => []

/-- The state after the body of a call was bound, if there is one. -/
def withCaller (args : CallArgs) (frame : FrameId) (s : State) : State :=
  match args.keywords.get? "caller" with
  | some caller => s.setting frame "caller" caller
  | none => s

/-- The answer of a macro whose body gave an answer. -/
def bodyAnswer (declared : MacroDef) (exports : Option Bindings) :
    Except TemplateError String → Except TemplateError Value
  | .ok text => .ok (.safe text)
  | .error e => .error (if exports.isSome then e.through declared.template else e)

/-- A macro was entered from a state, and takes its arguments in another one: in a frame of its own, in
which nothing is bound yet. -/
structure Entered (scope : Scope) (declared : MacroDef) (closure exports : Option Bindings) (s : State)
    (inner : Scope) (t : State) : Prop where
  path : inner.path = declared.template
  block : inner.block = none
  /-- A macro that was imported has a context of its own. -/
  context : exports = none → inner.context = scope.context
  empty : t.Holds (ownFrame s closure) []
  frames : Extends Eq s.frames t.frames
  depth : t.depth = s.depth + 1

/-- What a call of a macro comes to. -/
inductive MacroRun (R : State → State → Prop) (ev : Evaluator) (scope : Scope) (declared : MacroDef)
    (closure exports : Option Bindings) (args : CallArgs) (s : State) :
    Except TemplateError Value → State → Prop
  /-- Too many calls are in progress. -/
  | refused (hdepth : macroDepthLimit ≤ s.depth) :
    MacroRun R ev scope declared closure exports args s
      (.error (.ofCause (.macroDepth declared.name))) s
  /-- A default fails. -/
  | defaultFails {inner : Scope} {t u : State} {e : TemplateError}
    (hdepth : s.depth < macroDepthLimit) (hentered : Entered scope declared closure exports s inner t)
    (hfails : DefaultFails R ev inner (ownFrame s closure) args t declared.signature e u) :
    MacroRun R ev scope declared closure exports args s (.error e) { u with depth := u.depth - 1 }
  /-- The body starts, when all parameters are bound, and beside them nothing but `caller`. -/
  | bodyRuns {inner : Scope} {b : Bindings} {t u v : State} {out : Except TemplateError String}
    (hdepth : s.depth < macroDepthLimit) (hentered : Entered scope declared closure exports s inner t)
    (hfilled : Filled R ev inner (ownFrame s closure) args t declared.signature b u)
    (hbound : (withCaller args (ownFrame s closure) u).Holds (ownFrame s closure)
      (b ++ callerBinding args))
    (hbody : (ev.exec inner declared.body (ownFrame s closure)
      (withCaller args (ownFrame s closure) u)).Yields R out v) :
    MacroRun R ev scope declared closure exports args s (bodyAnswer declared exports out)
      { v with depth := v.depth - 1 }

variable {declared : MacroDef} {closure exports : Option Bindings}

theorem macroFrame_yields {answer : Except TemplateError FrameId}
    (h : (macroFrame closure s).Yields R answer t) :
    answer = .ok (ownFrame s closure) ∧ t.Holds (ownFrame s closure) [] ∧
      Extends Eq s.frames t.frames ∧ t.depth = s.depth := by
  cases closure with
  | none =>
      obtain ⟨rfl, rfl⟩ := Poll.yields_done_iff.1 h
      refine ⟨rfl, ?_, .push (fun _ => rfl) _ _, rfl⟩
      change ((s.frames.push Frames.detached)[s.frames.size]?).map Frame.bindings = some []
      rw [Array.getElem?_push_size]
      rfl
  | some bindings =>
      obtain ⟨rfl, rfl⟩ := Poll.yields_done_iff.1 h
      have hsize : (s.frames.push (Frames.ofBindings bindings)).size = s.frames.size + 1 :=
        Array.size_push _
      have hframes : Extends Eq s.frames ((s.frames.push (Frames.ofBindings bindings)).push
          (Frames.inside s.frames.size true)) :=
        .trans (R := Eq) (fun _ _ _ => Eq.trans) (.push (fun _ => rfl) _ _) (.push (fun _ => rfl) _ _)
      refine ⟨congrArg Except.ok hsize, ?_, hframes, rfl⟩
      change (((s.frames.push (Frames.ofBindings bindings)).push
        (Frames.inside s.frames.size true))[s.frames.size + 1]?).map Frame.bindings = some []
      rw [← hsize, Array.getElem?_push_size]
      rfl

/-- The scope of a macro is entered. -/
theorem macroScope_yields {answer : Except TemplateError Scope}
    (hempty : t.Holds (ownFrame s closure) []) (hframes : Extends Eq s.frames t.frames)
    (hdepth : t.depth = s.depth + 1) (h : (macroScope scope declared exports t).Yields R answer u) :
    ∃ inner, answer = .ok inner ∧ Entered scope declared closure exports s inner u := by
  cases exports with
  | none =>
      obtain ⟨rfl, rfl⟩ := Poll.yields_done_iff.1 h
      exact ⟨_, rfl, rfl, rfl, fun _ => rfl, hempty, hframes, hdepth⟩
  | some bindings =>
      obtain ⟨rfl, rfl⟩ := Poll.yields_done_iff.1 h
      exact ⟨_, rfl, rfl, rfl, (fun hnone => nomatch hnone), hempty, hframes, hdepth⟩

/-- Parameters are filled, and then `caller` is bound if it is there. -/
theorem bindParameters_yields (henv : env.LeavesFrames) (hothers : ∀ s t, R s t → s.Leaves frame t)
    {depth : Nat} (hnames : (declared.signature.map Prod.fst).Nodup)
    (hcaller : "caller" ∉ declared.signature.map Prod.fst)
    (hterms : ∀ entry ∈ declared.defaults, entry.2.Term) (hs : s.Holds frame [])
    {answer : Except TemplateError Unit}
    (h : (bindParameters (.tied env depth) scope frame declared args s).Yields R answer u) :
    (∃ b t, answer = .ok () ∧ Filled R (.tied env depth) scope frame args s declared.signature b t ∧
      u = withCaller args frame t ∧ u.Holds frame (b ++ callerBinding args)) ∨
    ∃ e, answer = .error e ∧
      DefaultFails R (.tied env depth) scope frame args s declared.signature e u := by
  have hdefaults : ∀ entry ∈ declared.signature, ∀ n ∈ entry.2, n.Term := by
    intro entry hentry n hn
    rcases List.mem_append.1 hentry with hplain | hdefault
    · obtain ⟨name, -, rfl⟩ := List.mem_map.1 hplain
      cases hn
    · obtain ⟨default, hmem, rfl⟩ := List.mem_map.1 hdefault
      cases hn
      exact hterms default hmem
  have hapart : (([] ++ declared.signature).map Prod.fst).Nodup := hnames
  have hleft : Left args (List.map Prod.fst ([] : List (String × Option Node))) args :=
    ⟨rfl, fun _ _ => rfl⟩
  -- the parameters come first, and any default may fail; what is bound after them cannot
  rw [bindParameters_eq] at h
  rcases Action.yields_bind_iff.1 h with ⟨e, rfl, hfails⟩ | ⟨left, t, hgives, hrest⟩
  · rcases bindAll_yields henv hothers hapart hdefaults hleft .nil hs hfails with
      ⟨_, _, hok, -⟩ | ⟨e', he, hdefault⟩
    · cases hok
    · cases he
      exact .inr ⟨e, rfl, hdefault⟩
  · rcases bindAll_yields henv hothers hapart hdefaults hleft .nil hs hgives with
      ⟨left', b, hok, hkeywords, hfilled, ht⟩ | ⟨e, he, -⟩
    · cases hok
      rw [hkeywords.keywords "caller" hcaller] at hrest
      unfold withCaller callerBinding
      cases hget : args.keywords.get? "caller" with
      | none =>
          rw [hget] at hrest
          obtain ⟨rfl, rfl⟩ := Poll.yields_done_iff.1 hrest
          exact .inl ⟨b, u, rfl, hfilled, rfl, by rwa [List.append_nil]⟩
      | some caller =>
          rw [hget] at hrest
          obtain ⟨rfl, rfl⟩ := Poll.yields_done_iff.1 hrest
          have hnew : ∀ m ∈ b, m.1 ≠ "caller" := fun m hm heq =>
            hcaller (hfilled.names ▸ heq ▸ List.mem_map_of_mem hm)
          exact .inl ⟨b, t, rfl, hfilled, rfl, ht.setting hnew caller⟩
    · cases he

/-- The output of a body is returned as safe text. -/
theorem safe_yields {body : Action String} {answer : Except TemplateError Value}
    (h : ((body >>= fun out => pure (.safe out) : Action Value) s).Yields R answer u) :
    ∃ out, (body s).Yields R out u ∧ answer = bodyAnswer declared none out := by
  rcases Action.yields_bind_iff.1 h with ⟨e, rfl, hfails⟩ | ⟨out, _, hgives, hpure⟩
  · exact ⟨.error e, hfails, rfl⟩
  · obtain ⟨rfl, rfl⟩ := Poll.yields_done_iff.1 hpure
    exact ⟨.ok out, hgives, rfl⟩

/-- What a body comes to is what the call comes to, but for the template that an error passes. -/
theorem body_yields {body : Action String} {answer : Except TemplateError Value}
    (h : ((if exports.isSome then
        Action.throughTemplate declared.template body >>= fun out => pure (.safe out)
      else body >>= fun out => pure (.safe out) : Action Value) s).Yields R answer u) :
    ∃ out, (body s).Yields R out u ∧ answer = bodyAnswer declared exports out := by
  cases exports with
  | none => exact safe_yields h
  | some bindings =>
      obtain ⟨given, hgiven, hanswer⟩ :
          ∃ given, (Action.throughTemplate declared.template body s).Yields R given u ∧
            answer = bodyAnswer declared none given := safe_yields h
      obtain ⟨out, _, hbody, rfl, rfl⟩ := Poll.yields_mapAnswer_iff.1 hgiven
      exact ⟨out, hbody, hanswer.trans (by cases out <;> rfl)⟩

/-- A macro that is called when not too many are in progress. -/
theorem runMacro_yields (henv : env.LeavesFrames) {depth : Nat}
    (hnames : (declared.signature.map Prod.fst).Nodup)
    (hcaller : "caller" ∉ declared.signature.map Prod.fst)
    (hterms : ∀ entry ∈ declared.defaults, entry.2.Term)
    (hothers : ∀ s₁ s₂, R s₁ s₂ → s₁.Leaves (ownFrame s closure) s₂)
    {answer : Except TemplateError Value} (hdepth : s.depth < macroDepthLimit)
    (h : (runMacro (.tied env depth) scope declared closure exports args
      { s with depth := s.depth + 1 }).Yields R answer u) :
    MacroRun R (.tied env depth) scope declared closure exports args s answer
      { u with depth := u.depth - 1 } := by
  -- neither making the frame of a call nor making its scope fails
  rcases Action.yields_bind_iff.1 h with ⟨e, -, hframe⟩ | ⟨frame, t, hframe, hrun⟩
  · cases (macroFrame_yields hframe).1
  obtain ⟨heq, hempty, hframes, ht⟩ := macroFrame_yields hframe
  obtain rfl : frame = ownFrame s closure := Except.ok.inj heq
  rcases Action.yields_bind_iff.1 hrun with ⟨e, -, hscope⟩ | ⟨inner, t', hscope, hbind⟩
  · obtain ⟨_, hok, -⟩ := macroScope_yields (s := s) hempty hframes ht hscope
    cases hok
  obtain ⟨_, hok, hentered⟩ := macroScope_yields (s := s) hempty hframes ht hscope
  cases hok
  rcases Action.yields_bind_iff.1 hbind with ⟨e, rfl, hfails⟩ | ⟨_, v, hbound, hrest⟩
  · rcases bindParameters_yields henv hothers hnames hcaller hterms hentered.empty hfails with
      ⟨_, _, hok, -⟩ | ⟨_, he, hfails⟩
    · cases hok
    · cases he
      exact .defaultFails hdepth hentered hfails
  · rcases bindParameters_yields henv hothers hnames hcaller hterms hentered.empty hbound with
      ⟨b, w, -, hfilled, rfl, hv⟩ | ⟨e, he, -⟩
    · obtain ⟨out, hbody, rfl⟩ := body_yields hrest
      exact .bodyRuns hdepth hentered hfilled hv hbody
    · cases he

/-- **Each parameter is bound to its argument or its default** when the body of a macro starts: to the
argument with its place, or else to the one with its name, or else to what its default denotes where
exactly the parameters before it are bound.  Other arguments bind nothing, but for `caller`.  That
defaults are expressions is so for all macros of templates (`Template.build_defaults`). -/
theorem callMacro_yields (henv : env.LeavesFrames) {depth : Nat}
    (hnames : (declared.signature.map Prod.fst).Nodup)
    (hcaller : "caller" ∉ declared.signature.map Prod.fst)
    (hterms : ∀ entry ∈ declared.defaults, entry.2.Term)
    (hothers : ∀ s₁ s₂, R s₁ s₂ → s₁.Leaves (ownFrame s closure) s₂)
    {answer : Except TemplateError Value}
    (h : (callMacro (.tied env depth) scope declared closure exports args s).Yields R answer u) :
    MacroRun R (.tied env depth) scope declared closure exports args s answer u := by
  by_cases hdepth : macroDepthLimit ≤ s.depth
  · have hcall : callMacro (.tied env depth) scope declared closure exports args s =
        .done (.error (.ofCause (.macroDepth declared.name))) s := congrFun (if_pos hdepth) s
    rw [hcall] at h
    obtain ⟨rfl, rfl⟩ := Poll.yields_done_iff.1 h
    exact .refused hdepth
  · have hcall : callMacro (.tied env depth) scope declared closure exports args s =
        (runMacro (.tied env depth) scope declared closure exports args
          { s with depth := s.depth + 1 }).mapAnswer id fun s => { s with depth := s.depth - 1 } :=
      congrFun (if_neg hdepth) s
    rw [hcall] at h
    obtain ⟨_, u, hrun, rfl, rfl⟩ := Poll.yields_mapAnswer_iff.1 h
    exact runMacro_yields henv hnames hcaller hterms hothers (Nat.lt_of_not_le hdepth) hrun

/-- A macro that prints its four parameters.  Two of them have defaults, the first of which is the
parameter `a`. -/
def printing : MacroDef where
  number := 0
  name := "print"
  parameters := ["a", "b"]
  defaults := [("c", .symbol default "a"), ("d", .literal default (.int 4))]
  body := .group .output default [.symbol default "a", .text default ",", .symbol default "b",
    .text default ",", .symbol default "c", .text default ",", .symbol default "d"]
  template := "page"
  isCaller := false

/-- A template is being rendered, and has bound nothing yet. -/
def started : Environment × State :=
  let (env, s) := Environment.ofMemory []
  (env, { s with
    frames := #[Frames.root], contexts := #[.ofBlocks env.globals [] []], parents := #[none] })

/-- There is an argument for the first parameter, none for the second and the third, a keyword for the
last, and one for no parameter. -/
theorem callMacro_yields_printing : ∃ answer u,
    (callMacro (.tied started.1 20) ⟨0, "page", 0, none⟩ printing none none
      ⟨[.int 1], [("d", .int 2), ("z", .int 3)]⟩ started.2).Yields Eq answer u ∧
    answer.toOption.map Value.text = some "1,,1,2" ∧
    MacroRun Eq (.tied started.1 20) ⟨0, "page", 0, none⟩ printing none none
      ⟨[.int 1], [("d", .int 2), ("z", .int 3)]⟩ started.2 answer u := by
  have hcomputed : (((callMacro (.tied started.1 20) ⟨0, "page", 0, none⟩ printing none none
      ⟨[.int 1], [("d", .int 2), ("z", .int 3)]⟩ started.2).finish 0).1.bind Except.toOption).map
        Value.text = some "1,,1,2" := by decide +kernel
  obtain ⟨v, hv, htext⟩ := Option.map_eq_some_iff.1 hcomputed
  have hyields := Poll.Yields.of_finish (R := Eq) (fun _ => rfl) (Poll.eq_of_toOption hv)
  refine ⟨.ok v, _, hyields, congrArg some htext, ?_⟩
  exact callMacro_yields (Environment.ofMemory_bare []).leavesFrames (by decide) (by decide) (by decide)
    (fun s t hst => hst ▸ ⟨.refl (fun _ => ⟨rfl, rfl, rfl⟩) _, rfl⟩) hyields

end Render

end Stencil
