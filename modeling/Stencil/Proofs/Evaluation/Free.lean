/-
**Code that may write all that it gets to.**

A policy that says nothing about what is written where lets code write every frame and every context
that it gets to.  What is left to ask is about trees, each under the name of the template whose code it
is: that the parts of a tree are of the same kind as the tree, and that trees of the kind do what the
policy asks for.

Main definitions:

* `Stencil.World.Free`, `Stencil.Sites.free` — where trees of a kind may run;
* `Stencil.Policy.Allows` — what a policy asks of a kind of trees.

Main results:

* `Stencil.Policy.Allows.lawful`, `Stencil.Policy.Allows.inherits` — **runs of such trees keep the
  policy**.
-/

import Stencil.Proofs.Evaluation.Runs

set_option autoImplicit false

namespace Stencil

/-! ### Where code may write all that it gets to -/

/-- Code may write all frames and contexts that it gets to. -/
structure World.Free (w : World) (scope : Scope) (frame : FrameId) : Prop where
  frame : w.Open (fun _ => False) frame
  context : w.MadeContext scope.context
  parent : .parent scope.parent ∈ w.may

namespace World.Free

variable {w v : World} {scope inner : Scope} {frame id : FrameId}

theorem of_eq (h : w.Free scope frame) (hstate : v.state = w.state) (hmay : v.may = w.may) :
    v.Free scope frame where
  frame := h.frame.of_eq hstate hmay
  context := by
    obtain ⟨hcontext, hmembers, hexported, hblocks⟩ := h.context
    exact ⟨hmay ▸ hcontext, fun name => hmay ▸ hmembers name, hmay ▸ hexported, hmay ▸ hblocks⟩
  parent := hmay ▸ h.parent

/-- Code that runs at a border, in the same context or in one that was made for it. -/
theorem border {f : Frame} (h : w.Free scope frame) (hmade : w.Made (fun _ => False) id f)
    (hborder : f.parent = none ∨ f.isolated = true)
    (hcontext : inner.context = scope.context ∨ w.MadeContext inner.context)
    (hparent : .parent inner.parent ∈ w.may) : w.Free inner id where
  frame := hmade.open_border hborder
  context := hcontext.elim (fun heq => heq ▸ h.context) fun hmade => hmade
  parent := hparent

/-- Any name may be bound there, and be offered. -/
theorem write (h : w.Free scope frame) (up offered : Bool) (name : String) :
    w.MayBind up frame name ∧ w.MayPublish offered scope.context name :=
  ⟨h.frame.mayBind not_false, h.context.may, h.context.members name, fun _ => h.context.exported⟩

end World.Free

/-- Where trees of a kind may run, under the names of their templates. -/
def Sites.free (kind : String → Node → Prop) : Sites where
  held _ := False
  site scope frame n w := kind scope.path n ∧ w.Free scope frame
  root context frame w := w.MadeContext context ∧ w.Open (fun _ => False) frame

/-- What a policy asks of a kind of trees: that parts are of the same kind, that what is run or
declared of such trees is as the policy asks, and that what is declared or held is of the kind, under
the name of the template that it was declared in. -/
structure Policy.Allows (π : Policy) (kind : String → Node → Prop) (env : Environment) : Prop
    extends Policy.Basic π env where
  child : ∀ {path n c}, kind path n → c ∈ n.children → kind path c
  shape : ∀ {path n}, kind path n → π.Careless ∨ n.isFormed = true
  content : ∀ {path p content}, kind path (.text p content) → π.text content
  filter : ∀ {name f}, env.filters.lookup name = some f → ∀ {path p n v args},
    π.Triple (fun _ => kind path (.filter p name n) ∧ v.Admitted π ∧ ∀ a ∈ args, a.Admitted π)
      (f.apply v args) (f.apply v args) fun v _ => v.Admitted π
  declares : ∀ {p role name parameters body number path},
    kind path (.definition p role name parameters body) →
      π.declared ⟨number, name, Render.plainParameters parameters,
        Render.defaultParameters parameters, body, path, role == .caller⟩
  body : ∀ {d}, π.declared d → kind d.template d.body ∧ π.Expects .member d.body
  default : ∀ {d}, π.declared d → ∀ entry ∈ d.defaults,
    kind d.template entry.2 ∧ π.Expects .argument entry.2
  root : ∀ {name c}, π.Ready name c → kind name c.root ∧ π.Expects .member c.root
  block : ∀ {b}, π.block b → kind b.template b.body ∧ π.Expects .member b.body
  overridden : ∀ name, π.cause (.superOutsideBlock name)

namespace Policy.Allows

variable {π : Policy} {kind : String → Node → Prop} {env : Environment}

/-- Statements and expressions of such trees keep the policy. -/
theorem lawful (hπ : π.Allows kind env) : π.Lawful (.free kind) env where
  toBasic := hπ.toBasic
  shared hstate hmay _ h := ⟨h.1, h.2.of_eq hstate hmay⟩
  child h _ hc := ⟨hπ.child h.1 hc, h.2⟩
  shape h := hπ.shape h.1
  content h := hπ.content h.1
  filter hf _ _ _ _ _ _ := (hπ.filter hf).of_pre fun _ h => ⟨h.1.1, h.2⟩
  loop h hmade _ := by
    refine ⟨hπ.child h.1 ?_, hmade.open_inside rfl h.2.frame, h.2.context, h.2.parent⟩
    simp [Node.children, Node.fields, Node.Field.nodes]
  write h _ := ⟨(h.2.write _ false _).1, fun _ => (h.2.write false _ _).2⟩
  declares h := hπ.declares h.1
  call h hdeclared hmade _ hborder hcontext _ hpath hparent := by
    have hfree := h.2.border hmade hborder hcontext hparent
    have hbody := hπ.body hdeclared
    refine ⟨⟨⟨hpath ▸ hbody.1, hfree⟩, hbody.2⟩, fun d hd => ?_⟩
    have hdefault := hπ.default hdeclared d hd
    exact ⟨⟨hpath ▸ hdefault.1, hfree⟩, hdefault.2⟩
  root _ hcontext hmade _ hborder := ⟨hcontext, hmade.open_border hborder⟩

/-- Inheritance keeps the policy. -/
theorem inherits (hπ : π.Allows kind env) : π.Inherits (.free kind) where
  tree h hready hcontext _ hparent :=
    ⟨⟨(hπ.root hready).1, h.2, hcontext ▸ h.1, hparent⟩, (hπ.root hready).2⟩
  block h hblock hmade hcontext hpath _ hparent :=
    ⟨⟨hpath ▸ (hπ.block hblock).1, h.2.border hmade (.inr rfl) (.inl hcontext) hparent⟩,
      (hπ.block hblock).2⟩
  overrides h := ⟨fun x _ => (h.2.write _ false x).1, fun _ => hπ.overridden _⟩
  extend h := ⟨h.2.context.blocks, h.2.parent⟩

/-- **Runs of such trees keep the policy**, however deep they nest. -/
theorem follows (hπ : π.Allows kind env) (depth : Nat) :
    Evaluator.Follows π (.free kind) (.tied env depth) (.tied env depth) :=
  .tied hπ.lawful hπ.inherits depth

end Policy.Allows

end Stencil
