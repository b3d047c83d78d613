/-
**What templates are read into.**

Not every tree is a tree of a template.  An expression holds no statement but inside of the body of a
call, and what a template can name are names that can be written.  This module says which trees can be
read; `Stencil.Proofs.Syntax.Statements` proves that no others are.

Main definitions:

* `Stencil.Node.isTerm`, `Stencil.Node.Term` — nodes that an expression is made of, and trees of them;
* `Stencil.Node.IsWritable` — names that can be written in a template;
* `Stencil.Node.Plain` — what a node that was read has for parts;
* `Stencil.Node.Parsed` — trees that were read;
* `Stencil.Node.Expression`, `Stencil.Node.Evaluable` — parts of expressions that were read, and
  expressions with a value.

Main results:

* `Stencil.Node.term_iff` — a term is made of terms;
* `Stencil.Node.Expression.of_children` — an expression is made of expressions.
-/

import Stencil.Parser.Template
import Stencil.Proofs.Shapes

set_option autoImplicit false

namespace Stencil.Node

/-! ### Terms -/

/-- Whether a node is part of an expression: it runs nothing but what it calls. -/
def isTerm : Node → Bool
  | literal _ _ | symbol _ _ | pair _ _ _ | binary _ _ _ _ | unary _ _ _ | compare _ _ _
  | operand _ _ _ | choice _ _ _ _ | lookup _ _ _ | slice _ _ _ _ | call _ _ _ | filter _ _ _
  | definition _ .caller _ _ _ => true
  | group kind _ _ => kind != .root && kind != .output
  | _ => false

/-- A tree that is made of parts of expressions, the bodies of calls left out. -/
def Term (n : Node) : Prop := ∀ m ∈ n.level, m.isTerm = true

instance (n : Node) : Decidable n.Term :=
  inferInstanceAs (Decidable (∀ m ∈ n.level, m.isTerm = true))

/-- A term is made of terms. -/
theorem term_iff {n : Node} :
    n.Term ↔ n.isTerm = true ∧ (n.isApart = false → ∀ c ∈ n.children, c.Term) := by
  constructor
  · intro h
    refine ⟨h n (mem_level_self n), fun hn c hc m hm => ?_⟩
    exact h m (mem_level_of_mem_children hn hc hm)
  · rintro ⟨hn, hchildren⟩ m hm
    rcases mem_walk_iff.1 hm with rfl | ⟨hapart, c, hc, hmc⟩
    · exact hn
    · exact hchildren hapart c hc m hmc

theorem Term.child {n c : Node} (h : n.Term) (hn : n.isApart = false) (hc : c ∈ n.children) :
    c.Term :=
  (term_iff.1 h).2 hn c hc

/-! ### Trees that are read -/

/-- A name that can be written in a template. -/
def IsWritable (name : String) : Prop := Lexeme.isName name.toList = true

instance (name : String) : Decidable (IsWritable name) :=
  inferInstanceAs (Decidable (Lexeme.isName name.toList = true))

/-- A node that may stand in an output: a text, an expression, or a filter on a captured body. -/
def Member (n : Node) : Prop :=
  (∃ p content, n = text p content) ∨ n.Term ∨
    ∃ p name q r body more, n = filter p name (sequence q (capture r body :: more)) ∧
      ∀ m ∈ more, m.Term

/-- What a node that was read has for parts. -/
def Plain : Node → Prop
  | symbol _ name => IsWritable name
  | call _ callee arguments => callee.Term ∧ arguments.Term
  | group .output _ ns => ∀ n ∈ ns, n.Member
  | branch _ _ condition _ _ => condition.Term
  | loop _ _ source target _ _ => source.Term ∧ target.Term
  | assign _ targets value _ => (∀ n ∈ targets, n.Term) ∧ ∀ n, value = some n → n.Term
  | definition _ _ name parameters _ => IsWritable name ∧ parameters.Term
  | block _ _ body => ∃ p ns, body = sequence p ns
  | embed _ template _ | extend _ template => template.Term
  | importAll _ template target _ => template.Term ∧ IsWritable target
  | importNames _ template names _ => template.Term ∧ ∀ name ∈ names, IsWritable name.name ∧
      ∀ new, name.newName = some new → IsWritable new
  | tagCall _ _ _ _ | overridden _ _ _ | bind _ _ _ => False
  | _ => True

/-- A tree that was read: what was read, in the shape that it was read in. -/
def Parsed (n : Node) : Prop := n.Everywhere fun m => m.Plain ∧ m.isFormed = true

/-- A part of an expression that was read. -/
def Expression (n : Node) : Prop := n.Term ∧ n.Parsed

/-- An expression that was read, which has a value. -/
def Evaluable (n : Node) : Prop := n.Expression ∧ n.hasValue = true

theorem parsed_iff {n : Node} :
    n.Parsed ↔ (n.Plain ∧ n.isFormed = true) ∧ ∀ c ∈ n.children, c.Parsed :=
  everywhere_iff

/-- A part of an expression is made of such parts. -/
theorem Expression.of_children {n : Node} (hterm : n.isTerm = true) (hplain : n.Plain)
    (hformed : n.isFormed = true) (h : ∀ c ∈ n.children, c.Expression) : n.Expression :=
  ⟨term_iff.2 ⟨hterm, fun _ c hc => (h c hc).1⟩,
    parsed_iff.2 ⟨⟨hplain, hformed⟩, fun c hc => (h c hc).2⟩⟩

/-- A list that is a part of an expression. -/
theorem Expression.group {kind : GroupKind} {p : Position} {ns : List Node}
    (hroot : kind ≠ .root) (houtput : kind ≠ .output)
    (hformed : (Node.group kind p ns).isFormed = true) (h : ∀ n ∈ ns, n.Expression) :
    (Node.group kind p ns).Expression := by
  refine of_children (by simp [isTerm, hroot, houtput]) ?_ hformed fun c hc => h c ?_
  · cases kind <;> trivial
  · simpa [children, fields, Field.nodes] using hc

theorem Evaluable.symbol {p : Position} {name : String} (h : IsWritable name) :
    (Node.symbol p name).Evaluable :=
  ⟨.of_children rfl h rfl fun _ hc => by simp [children, fields] at hc, rfl⟩

theorem Evaluable.literal (p : Position) (value : Literal) : (Node.literal p value).Evaluable :=
  ⟨.of_children rfl trivial rfl fun _ hc => by simp [children, fields] at hc, rfl⟩

/-- The members of a list in an expression are expressions. -/
theorem Expression.member {n m : Node} (h : n.Expression) (hm : m ∈ n.members) :
    m.Expression := by
  cases n with
  | group kind p ns =>
      have hc : m ∈ (Node.group kind p ns).children := by
        simpa [children, fields, Field.nodes, members] using hm
      exact ⟨h.1.child rfl hc, h.2.child hc⟩
  | _ => simp [members] at hm

end Stencil.Node
