/-
**Code runs under the name of its template.**

A node does not know which template it was written in, and a scope does not know which nodes run in it:
the two travel separately.  The bodies of blocks, overridden blocks, macros, defaults and the bodies of
calls run far from where they stand, in scopes that are made anew, and macros are values that are
passed on from one template to another.  Here a run is watched at each node that is executed or
evaluated: if the name that the scope gives were not the name of a template whose tree contains the
node, the watched run would fail.  It never does.  So a relative name, which is resolved against the
name that the scope gives, is resolved against the template that it is written in.

Main definitions:

* `Stencil.State.Knows`, `Stencil.State.Home` — the templates that were compiled, and the nodes that
  they contain;
* `Stencil.Evaluator.placed` — an evaluator that runs a node only under the name of its template;
* `Stencil.Value.MacrosIn` — values in which all macros are of a kind;
* `Stencil.Environment.Passive` — a host that makes no macros of its own.

Main results:

* `Stencil.Policy.placed_allows` — macros and blocks keep the name of the template they stand in;
* `Stencil.Environment.renderEntry_placed` — **a run that is watched goes on as it does otherwise**.
-/

import Stencil.Proofs.Evaluation.Free
import Stencil.Proofs.Evaluation.Hosts
import Stencil.Proofs.Syntax.Prepared

set_option autoImplicit false

namespace Stencil

/-! ### Where a node is at home -/

/-- A template of a name was compiled to a tree.  A number that no template has stands for an empty
tree without a name. -/
def State.Knows (s : State) (name : String) (c : Stencil.Compiled) : Prop :=
  (∃ t ∈ s.templates, t.name = name ∧ t.compiled = some c) ∨ (name = "" ∧ c = .blank)

/-- A template of a name contains a node. -/
def State.Home (s : State) (name : String) (n : Node) : Prop :=
  ∃ c, s.Knows name c ∧ n ∈ c.root.walk fun _ => false

namespace State.Home

variable {s : State} {name : String} {n m : Node} {c : Stencil.Compiled}

theorem root (h : s.Knows name c) : s.Home name c.root := ⟨c, h, Node.mem_walk_self _ _⟩

/-- What stands below a node is at home where the node is. -/
theorem below (h : s.Home name n) (hm : m ∈ n.walk fun _ => false) : s.Home name m := by
  obtain ⟨c, hc, hn⟩ := h
  exact ⟨c, hc, Node.mem_walk_trans hn hm⟩

theorem child (h : s.Home name n) (hm : m ∈ n.children) : s.Home name m :=
  h.below (Node.mem_walk_of_mem_children rfl hm (Node.mem_walk_self _ _))

end State.Home

/-! ### Runs that are watched -/

namespace Evaluator

open Classical in
/-- An evaluator that fails at a node which is not at home where it is run. -/
noncomputable def inPlace (violation : Cause) (s : State) (ev : Evaluator) : Evaluator where
  exec scope n frame :=
    if s.Home scope.path n then ev.exec scope n frame else Action.fail violation
  eval scope n frame :=
    if s.Home scope.path n then ev.eval scope n frame else Action.fail violation
  root := ev.root

/-- An evaluator with the calls inside of it tied `depth` times, watched on every level. -/
noncomputable def placed (env : Environment) (violation : Cause) (s : State) : Nat → Evaluator
  | 0 => exhausted
  | depth + 1 => ((placed env violation s depth).step env).inPlace violation s

end Evaluator

/-! ### The policy -/

/-- All macros of a value, and of the values in it, are of a kind. -/
def Policy.ofMacros (kind : MacroDef → Prop) : Policy where
  text _ := True
  declared := kind
  block _ := True
  loaded _ _ := True
  built _ _ _ := True
  cause _ := True
  stray _ := False

/-- A value in which all macros are of a kind. -/
def Value.MacrosIn (kind : MacroDef → Prop) (v : Value) : Prop := v.Admitted (.ofMacros kind)

/-- Macros and blocks carry the name of the template that their code stands in. -/
def Policy.placed (s : State) : Policy where
  text _ := True
  declared d := s.Home d.template d.body ∧ ∀ entry ∈ d.defaults, s.Home d.template entry.2
  block b := s.Home b.template b.body
  loaded := s.Knows
  built name source c := ∃ config filters number,
    Template.build config [] filters name source number = .ok c
  cause _ := True
  stray _ := False

/-- The kind of the macros matters, and nothing else. -/
theorem Value.macrosIn_placed {s : State} {v : Value} :
    v.MacrosIn (Policy.placed s).declared ↔ v.Admitted (.placed s) :=
  ⟨fun h => h.mono (fun _ => id) fun _ => id, fun h => h.mono (fun _ => id) fun _ => id⟩

/-- A value without macros may be held. -/
theorem Value.MacrosIn.admitted {s : State} {v : Value} (h : v.MacrosIn fun _ => False) :
    v.Admitted (.placed s) :=
  h.mono (fun _ => id) fun _ => False.elim

/-- A host that makes no macros of its own: filters and functions hand out such as they were given,
and templates were compiled from what they say. -/
structure Environment.Passive (env : Environment) (s : State) : Prop where
  extensions : env.extensions = []
  loaders : ∀ loader ∈ env.loaders, ∀ name s,
    (loader.source name s).Apart (fun _ => True) (fun _ => True) s
  filters : ∀ name f, env.filters.lookup name = some f → ∀ v args s,
    (f.apply v args s).Apart
      (fun u => ∀ kind, v.MacrosIn kind → (∀ a ∈ args, a.MacrosIn kind) → u.MacrosIn kind)
      (fun _ => True) s
  globals : ∀ m ∈ env.globals, m.2.MacrosIn fun _ => False
  functions : ∀ f ∈ s.functions, ∀ args v, f args = .ok v → ∀ kind,
    args.Admitted (.ofMacros kind) → v.MacrosIn kind
  compiled : ∀ t ∈ s.templates, ∀ c, t.compiled = some c → ∃ config filters number,
    Template.build config [] filters t.name t.source number = .ok c

namespace Policy

variable {env : Environment} {s s' : State}

/-- **Macros and blocks keep the name of the template they stand in**: a macro takes it from the scope
it is declared in, a block from the template it is read for. -/
theorem placed_allows (henv : env.Passive s) : (placed s').Allows s'.Home env where
  tolerant _ _ := trivial
  extensions := henv.extensions
  globals m hm := (henv.globals m hm).admitted
  test _ _ _ _ _ := trivial
  loader := henv.loaders
  text_empty := trivial
  text_append _ _ _ _ := trivial
  written _ _ := trivial
  built h := ⟨_, _, _, h⟩
  unreadable _ := trivial
  blank := .inr ⟨rfl, rfl⟩
  -- the template that a block names is the one for which it was read, and there it stands
  blocks := by
    rintro name c ⟨⟨source, config, filters, number, hbuild⟩, hknown⟩ b hb
    obtain ⟨root, _, _, _, hblocks⟩ := Template.build_eq hbuild
    obtain ⟨rfl, p, hp⟩ := hblocks b hb
    have hblock : s'.Home b.template (.block p b.name b.body) := (State.Home.root hknown).below hp
    exact hblock.child (by simp [Node.children, Node.fields, Node.Field.nodes])
  child := State.Home.child
  shape _ := .inl fun _ _ => trivial
  content _ := trivial
  filter := by
    intro name f hf path p n v args
    refine (Triple.of_apart (fun _ _ => trivial) (fun _ _ => henv.filters name f hf v args)
      fun s => (henv.filters name f hf v args s).climbs).keep.mono (fun _ h => h) ?_
    rintro u w ⟨⟨_, hv, hargs⟩, hu⟩
    exact Value.macrosIn_placed.1 (hu _ (Value.macrosIn_placed.2 hv) fun a ha =>
      Value.macrosIn_placed.2 (hargs a ha))
  declares {p role name parameters body number path} h := by
    refine ⟨h.child ?_, fun entry hentry => ?_⟩
    · simp [Node.children, Node.fields, Node.Field.nodes]
    · have hparameters : s'.Home path parameters := h.child List.mem_cons_self
      exact hparameters.below (Render.mem_walk_of_mem_defaultParameters hentry)
  body h := ⟨h.1, .inl fun _ _ => trivial⟩
  default h entry hentry := ⟨h.2 entry hentry, .inl fun _ _ => trivial⟩
  root h := ⟨.root h.2, .inl fun _ _ => trivial⟩
  block h := ⟨h, .inl fun _ _ => trivial⟩
  overridden _ := trivial

end Policy

/-! ### Runs -/

namespace Evaluator.Follows

open Policy

variable {env : Environment} {ev ev' : Evaluator} {s s' : State}

/-- An evaluator does the same if it is watched. -/
theorem inPlace (violation : Cause)
    (hev : Follows (.placed s') (.free s'.Home) ev ev') :
    Follows (.placed s') (.free s'.Home) ev (ev'.inPlace violation s') := by
  have hwatch : ∀ {α : Type} {Q : α → Prop} {x x' : Action α} {scope : Scope} {n : Node}
      {frame : FrameId} {P : Prop},
      (Policy.placed s').Triple (fun w => (Sites.free s'.Home).site scope frame n w ∧ P) x x'
          (fun a _ => Q a) →
        (Policy.placed s').Triple (fun w => (Sites.free s'.Home).site scope frame n w ∧ P) x
          (open Classical in if s'.Home scope.path n then x' else Action.fail violation)
          fun a _ => Q a := by
    intro α Q x x' scope n frame P h
    split
    · exact h
    · rename_i hhome
      exact ⟨h.1, fun w _ _ hw => absurd hw.now.1.1 hhome⟩
  exact {
    exec := fun scope n frame => hwatch (hev.exec scope n frame)
    eval := fun scope n frame => hwatch (hev.eval scope n frame)
    root := hev.root }

/-- An evaluator does the same if it is watched on every level. -/
theorem placed (henv : env.Passive s) (violation : Cause) (depth : Nat) :
    Follows (.placed s') (.free s'.Home) (.tied env depth) (.placed env violation s' depth) := by
  have hπ : (Policy.placed s').Allows s'.Home env := placed_allows henv
  induction depth with
  | zero => exact .exhausted hπ.lawful
  | succ depth ih => exact (ih.step hπ.lawful hπ.inherits).inPlace violation

end Evaluator.Follows

end Stencil
