/-
**The shapes of trees.**

Statements and expressions are nodes alike, so the type of a tree does not say that a comparison has
operands, or that something that is evaluated has a value.  Here each part of a node gets the role
that the evaluator gives it, and a tree is well shaped if all parts in it can play their roles.

Main definitions:

* `Stencil.Node.Role`, `Stencil.Node.plays` — what a part of a node is there for, and which nodes can
  be there for it;
* `Stencil.Node.parts` — the nodes directly below a node, each with its role;
* `Stencil.Node.Shaped` — a tree in which all parts play their roles.

Main results:

* `Stencil.Node.parts_children` — the parts of a node are the nodes directly below it;
* `Stencil.Node.Shaped.part` — a part of a well shaped tree plays its role.
-/

import Mathlib.Data.List.Basic
import Stencil.Proofs.Tree
import Stencil.Render.Call

set_option autoImplicit false

namespace Stencil.Node

open Render (isKeywords)

/-! ### Kinds of nodes -/

/-- Whether a node is a text. -/
def isText : Node → Bool
  | text _ _ => true
  | _ => false

/-- Whether a node is a name. -/
def isSymbol (n : Node) : Bool := n.asSymbol?.isSome

/-- Whether a node is a body whose output is a value. -/
def isCapture : Node → Bool
  | capture _ _ => true
  | _ => false

/-- Whether a node is a pair. -/
def isPair : Node → Bool
  | pair _ _ _ => true
  | _ => false

/-- Whether a node is a pair of a name and a value. -/
def isKeyword : Node → Bool
  | pair _ key _ => key.isSymbol
  | _ => false

/-- Whether a node is an operand of a chain of comparisons. -/
def isOperand : Node → Bool
  | operand _ _ _ => true
  | _ => false

/-- Whether a node is a slice. -/
def isSlice : Node → Bool
  | slice _ _ _ _ => true
  | _ => false

/-- Whether a node is run for its output. -/
def isStatement : Node → Bool
  | group kind _ _ => kind == .root || kind == .sequence || kind == .output
  | branch _ _ _ _ _ | loop _ _ _ _ _ _ | assign _ _ _ _ | definition _ .named _ _ _
  | block _ _ _ | overridden _ _ _ | extend _ _ | embed _ _ _ | importAll _ _ _ _
  | importNames _ _ _ _ | bind _ _ _ => true
  | _ => false

/-- Whether a node is an expression, which has a value. -/
def hasValue : Node → Bool
  | literal _ _ | symbol _ _ | capture _ _ | binary _ _ _ _ | unary _ _ _ | compare _ _ _
  | choice _ _ _ _ | lookup _ _ _ | call _ _ _ | filter _ _ _
  | definition _ .caller _ _ _ => true
  | group kind _ _ => kind == .array || kind == .dict
  | _ => false

/-- Whether all members of a list pass a test, except that the last one may be keywords. -/
def isListOf (test : Node → Bool) : List Node → Bool
  | [] => true
  | [n] => test n || isKeywords n
  | n :: rest => test n && isListOf test rest

/-- Whether a node is a sequence of nodes that pass a test, except that the last may be keywords. -/
def isSequenceOf (test : Node → Bool) : Node → Bool
  | group .sequence _ ns => isListOf test ns
  | _ => false

/-- Whether a node names what a loop binds: one name or several. -/
def isTarget : Node → Bool
  | symbol _ _ => true
  | group .array _ ns => decide (2 ≤ ns.length) && ns.all isSymbol
  | _ => false

/-! ### Roles -/

/-- What a part of a node is there for. -/
inductive Role where
  /-- It is run for its output. -/
  | statement
  /-- It is written: a text or an expression. -/
  | content
  /-- It is evaluated. -/
  | value
  /-- Its output is the value of an assignment. -/
  | capture
  /-- It is a name that is bound. -/
  | name
  /-- It names what a loop binds. -/
  | target
  /-- It is a pair of a dictionary. -/
  | entry
  /-- It is a pair of keywords: a name and a value. -/
  | keyword
  /-- It is what a comparison goes on with. -/
  | operand
  /-- It is an index or a slice. -/
  | key
  /-- It is a list of expressions that may end in keywords. -/
  | arguments
  /-- It is a list of names that may end in keywords. -/
  | parameters
  /-- It is the keywords at the end of a list. -/
  | keywords
  /-- It is one of the arguments of a call. -/
  | argument
  /-- It is a member of a sequence, which may be a body or a list of arguments. -/
  | member
  deriving DecidableEq, Repr

/-- Whether a node can be there for something. -/
def plays (n : Node) : Role → Bool
  | .statement => n.isStatement
  | .content => n.isText || n.hasValue
  | .value => n.hasValue
  | .capture => n.isCapture
  | .name => n.isSymbol
  | .target => n.isTarget
  | .entry => n.isPair
  | .keyword => n.isKeyword
  | .operand => n.isOperand
  | .key => n.hasValue || n.isSlice
  | .arguments => n.isSequenceOf hasValue
  | .parameters => n.isSequenceOf isSymbol
  | .keywords => isKeywords n
  | .argument => n.hasValue || isKeywords n
  | .member => n.isStatement || n.hasValue || isKeywords n

/-- Nodes that are all there for the same. -/
def eachAs (r : Role) (ns : List Node) : List (Role × Node) := ns.map fun n => (r, n)

/-- The nodes directly below a node, with what they are there for. -/
def parts : Node → List (Role × Node)
  | group .root _ ns => eachAs .statement ns
  | group .sequence _ ns => eachAs .member ns
  | group .output _ ns => eachAs .content ns
  | group .array _ ns => eachAs .value ns
  | group .dict _ ns => eachAs .entry ns
  | group .keywords _ ns => eachAs .keyword ns
  | text _ _ | literal _ _ | symbol _ _ => []
  | capture _ body => [(.statement, body)]
  | pair _ key value => [(.value, key), (.value, value)]
  | binary _ _ left right => [(.value, left), (.value, right)]
  | unary _ _ target => [(.value, target)]
  | compare _ first operands => (.value, first) :: eachAs .operand operands
  | operand _ _ value => [(.value, value)]
  | choice _ condition body otherwise =>
    [(.value, condition), (.value, body)] ++ eachAs .value otherwise.toList
  | lookup _ target key => [(.value, target), (.key, key)]
  | slice _ start stop step =>
    eachAs .value start.toList ++ eachAs .value stop.toList ++ eachAs .value step.toList
  | call _ callee arguments => [(.value, callee), (.arguments, arguments)]
  | filter _ _ arguments => [(.arguments, arguments)]
  | tagCall _ _ arguments content => (.arguments, arguments) :: eachAs .statement content
  | branch _ _ condition body otherwise =>
    [(.value, condition), (.statement, body)] ++ eachAs .statement otherwise.toList
  | loop _ _ source target body otherwise =>
    [(.value, source), (.target, target), (.statement, body)] ++
      eachAs .statement otherwise.toList
  | assign _ targets value body =>
    eachAs .name targets ++ eachAs .value value.toList ++ eachAs .capture body.toList
  | definition _ _ _ parameters body => [(.parameters, parameters), (.statement, body)]
  | block _ _ body => [(.statement, body)]
  | overridden _ _ target => [(.name, target)]
  | extend _ template => [(.value, template)]
  | embed _ template _ => [(.value, template)]
  | importAll _ template _ _ => [(.value, template)]
  | importNames _ template _ _ => [(.value, template)]
  | bind _ action target => [(.value, action), (.name, target)]

/-- Whether a node has the parts that it needs: a value or a body is assigned, but not both.  Calls
of extensions have a shape that their hosts decide about. -/
def isWhole : Node → Bool
  | assign _ _ value body => value.isSome != body.isSome
  | tagCall _ _ _ _ => false
  | _ => true

/-- Whether all parts of a node can be there for what they are. -/
def isFormed (n : Node) : Bool := n.isWhole && n.parts.all fun part => part.2.plays part.1

/-- A tree in which all parts of nodes can be there for what they are. -/
def Shaped (n : Node) : Prop := n.Everywhere fun m => m.isFormed = true

instance (n : Node) : Decidable n.Shaped :=
  inferInstanceAs (Decidable (n.Everywhere fun m => m.isFormed = true))

/-! ### Parts that play their roles -/

/-- The parts of a node are the nodes directly below it. -/
theorem parts_children (n : Node) : n.parts.map Prod.snd = n.children := by
  have heach : ∀ (r : Role) (ns : List Node), (eachAs r ns).map Prod.snd = ns := by
    intro r ns
    simp [eachAs, Function.comp_def]
  cases n with
  | group kind p ns => cases kind <;> simp [parts, children, fields, Field.nodes, heach]
  | _ => simp [parts, children, fields, Field.nodes, heach]

theorem mem_children_of_mem_parts {n c : Node} {r : Role} (h : (r, c) ∈ n.parts) :
    c ∈ n.children := by
  rw [← parts_children]
  exact List.mem_map.2 ⟨_, h, rfl⟩

theorem isFormed_iff {n : Node} :
    n.isFormed = true ↔ n.isWhole = true ∧ ∀ r c, (r, c) ∈ n.parts → c.plays r = true := by
  simp [isFormed]

theorem Shaped.child {n c : Node} (h : n.Shaped) (hc : c ∈ n.children) : c.Shaped :=
  Everywhere.child h hc

/-- A part of a well shaped tree plays its role. -/
theorem Shaped.part {n c : Node} {r : Role} (h : n.Shaped) (hc : (r, c) ∈ n.parts) :
    c.plays r = true :=
  (isFormed_iff.1 h.self).2 r c hc

/-- What can be evaluated can be evaluated as an argument. -/
theorem plays_argument {n : Node} (h : n.plays .value = true) : n.plays .argument = true := by
  simp_all [plays]

/-- A captured body can be evaluated as an argument. -/
theorem plays_argument_of_capture {n : Node} (h : n.plays .capture = true) :
    n.plays .argument = true := by
  cases n with
  | capture => rfl
  | _ => cases h

/-- A member of a sequence that is not run can be evaluated as an argument. -/
theorem plays_argument_of_member {n : Node} (hn : n.isStatement = false)
    (h : n.plays .member = true) : n.plays .argument = true := by
  simp_all [plays]

/-- A keyword is a pair. -/
theorem plays_entry {n : Node} (h : n.plays .keyword = true) : n.plays .entry = true := by
  cases n with
  | pair => rfl
  | _ => cases h

/-- What can be run or evaluated can be a member of a sequence. -/
theorem plays_member {n : Node} (h : n.plays .statement = true ∨ n.plays .value = true) :
    n.plays .member = true := by
  simp_all [plays]

/-- A list of nodes that all pass a test. -/
theorem isListOf_of_all {test : Node → Bool} {ns : List Node} (h : ∀ n ∈ ns, test n = true) :
    isListOf test ns = true := by
  induction ns with
  | nil => rfl
  | cons n rest ih =>
      obtain ⟨hn, hrest⟩ := List.forall_mem_cons.1 h
      cases rest with
      | nil => simp [isListOf, hn]
      | cons m rest => simp [isListOf, hn, ih hrest]

/-- All members of such a list but the last one pass the test. -/
theorem isListOf_concat {test : Node → Bool} {ns : List Node} {k : Node} :
    isListOf test (ns ++ [k]) = true ↔
      (∀ n ∈ ns, test n = true) ∧ (test k = true ∨ isKeywords k = true) := by
  induction ns with
  | nil => simp [isListOf]
  | cons n rest ih =>
      have hcons : isListOf test (n :: (rest ++ [k])) = (test n && isListOf test (rest ++ [k])) := by
        cases rest <;> rfl
      rw [List.cons_append, hcons, Bool.and_eq_true, ih, List.forall_mem_cons, and_assoc]

/-- One more node that passes the test, in front. -/
theorem isListOf_cons {test : Node → Bool} {n : Node} {ns : List Node} (hn : test n = true)
    (h : isListOf test ns = true) : isListOf test (n :: ns) = true := by
  cases ns with
  | nil => simp [isListOf, hn]
  | cons m rest => simp [isListOf, hn, h]

/-- The members of a list of nodes that pass a test pass it, or are keywords. -/
theorem of_isListOf {test : Node → Bool} {ns : List Node} (h : isListOf test ns = true) :
    ∀ n ∈ ns, test n = true ∨ isKeywords n = true := by
  induction ns with
  | nil => simp
  | cons n rest ih =>
      cases rest with
      | nil => simpa [isListOf] using h
      | cons m rest =>
          simp only [isListOf, Bool.and_eq_true] at h
          exact List.forall_mem_cons.2 ⟨.inl h.1, ih h.2⟩

/-- A list of nodes that pass another test as well. -/
theorem isListOf_mono {test test' : Node → Bool} {ns : List Node}
    (h : ∀ n ∈ ns, test n = true → test' n = true) (hns : isListOf test ns = true) :
    isListOf test' ns = true := by
  rcases List.eq_nil_or_concat ns with rfl | ⟨init, last, rfl⟩
  · rfl
  · rw [List.concat_eq_append] at h hns ⊢
    obtain ⟨hinit, hlast⟩ := isListOf_concat.1 hns
    refine isListOf_concat.2 ⟨fun n hn => h n (by simp [hn]) (hinit n hn), ?_⟩
    exact hlast.imp (h last (by simp)) id

/-- The members of a list of arguments can be evaluated. -/
theorem plays_argument_of_mem {n m : Node} (h : n.plays .arguments = true) (hm : m ∈ n.members) :
    m.plays .argument = true := by
  cases n with
  | group kind p ns =>
      cases kind with
      | sequence => simpa [plays] using of_isListOf h m hm
      | _ => cases h
  | _ => cases h

end Stencil.Node
