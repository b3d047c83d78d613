/-
**Walking through template trees.**

Main definitions:

* `Stencil.Node.walk` — a node and the nodes below it in the order of the text, without what lies
  below the nodes that stop the walk;
* `Stencil.Node.findAll`, `Stencil.Node.anyBelow` — searches in a tree;
* `Stencil.Node.same` — whether two trees are the same, places included.
-/

import Stencil.Node

set_option autoImplicit false

namespace Stencil.Node

/-! ### Searching -/

/-- A node, followed by what lies below it unless it stops the walk. -/
def visit (stop : Node → Bool) (n : Node) (below : Unit → List Node) : List Node :=
  n :: if stop n then [] else below ()

mutual
/-- A node and the nodes below it, each before those below it; what lies below a node with `stop`
is left out. -/
def walk (stop : Node → Bool) : Node → List Node
  | n@(group _ _ children) => visit stop n fun _ => walkAll stop children
  | n@(text _ _) | n@(literal _ _) | n@(symbol _ _) => visit stop n fun _ => []
  | n@(capture _ body) => visit stop n fun _ => walk stop body
  | n@(pair _ key value) => visit stop n fun _ => walk stop key ++ walk stop value
  | n@(binary _ _ left right) => visit stop n fun _ => walk stop left ++ walk stop right
  | n@(unary _ _ target) => visit stop n fun _ => walk stop target
  | n@(compare _ first operands) => visit stop n fun _ => walk stop first ++ walkAll stop operands
  | n@(operand _ _ value) => visit stop n fun _ => walk stop value
  | n@(choice _ condition body otherwise) =>
    visit stop n fun _ => walk stop condition ++ walk stop body ++ walkOption stop otherwise
  | n@(lookup _ target key) => visit stop n fun _ => walk stop target ++ walk stop key
  | n@(slice _ start stop' step) =>
    visit stop n fun _ => walkOption stop start ++ walkOption stop stop' ++ walkOption stop step
  | n@(call _ callee arguments) => visit stop n fun _ => walk stop callee ++ walk stop arguments
  | n@(filter _ _ arguments) => visit stop n fun _ => walk stop arguments
  | n@(tagCall _ _ arguments content) =>
    visit stop n fun _ => walk stop arguments ++ walkAll stop content
  | n@(branch _ _ condition body otherwise) =>
    visit stop n fun _ => walk stop condition ++ walk stop body ++ walkOption stop otherwise
  | n@(loop _ _ source target body otherwise) =>
    visit stop n fun _ =>
      walk stop source ++ walk stop target ++ walk stop body ++ walkOption stop otherwise
  | n@(assign _ targets value body) =>
    visit stop n fun _ => walkAll stop targets ++ walkOption stop value ++ walkOption stop body
  | n@(definition _ _ _ parameters body) =>
    visit stop n fun _ => walk stop parameters ++ walk stop body
  | n@(block _ _ body) => visit stop n fun _ => walk stop body
  | n@(overridden _ _ target) => visit stop n fun _ => walk stop target
  | n@(extend _ template) => visit stop n fun _ => walk stop template
  | n@(embed _ template _) => visit stop n fun _ => walk stop template
  | n@(importAll _ template _ _) => visit stop n fun _ => walk stop template
  | n@(importNames _ template _ _) => visit stop n fun _ => walk stop template
  | n@(bind _ action target) => visit stop n fun _ => walk stop action ++ walk stop target

/-- The walks through the nodes of a list, one after the other. -/
def walkAll (stop : Node → Bool) : List Node → List Node
  | [] => []
  | n :: rest => walk stop n ++ walkAll stop rest

/-- The walk through a node that may be missing. -/
def walkOption (stop : Node → Bool) : Option Node → List Node
  | none => []
  | some n => walk stop n
end

/-- The nodes of a tree that pass a test, in the order of the text. -/
def findAll (test : Node → Bool) (n : Node) : List Node := (n.walk fun _ => false).filter test

/-- Whether a node below the given one passes a test; below nodes with `stop` none is looked
for. -/
def anyBelow (test stop : Node → Bool) (n : Node) : Bool :=
  n.children.any fun child => (child.walk stop).any test

/-! ### Equality -/

mutual
/-- Whether two trees are the same, places included. -/
def same : Node → Node → Bool
  | group k p a, group k' p' a' => k == k' && p == p' && sameAll a a'
  | text p s, text p' s' => p == p' && s == s'
  | capture p a, capture p' a' => p == p' && same a a'
  | literal p v, literal p' v' => p == p' && v == v'
  | symbol p s, symbol p' s' => p == p' && s == s'
  | pair p a b, pair p' a' b' => p == p' && same a a' && same b b'
  | binary p o a b, binary p' o' a' b' => p == p' && o == o' && same a a' && same b b'
  | unary p o a, unary p' o' a' => p == p' && o == o' && same a a'
  | compare p a b, compare p' a' b' => p == p' && same a a' && sameAll b b'
  | operand p o a, operand p' o' a' => p == p' && o == o' && same a a'
  | choice p a b c, choice p' a' b' c' => p == p' && same a a' && same b b' && sameOption c c'
  | lookup p a b, lookup p' a' b' => p == p' && same a a' && same b b'
  | slice p a b c, slice p' a' b' c' =>
    p == p' && sameOption a a' && sameOption b b' && sameOption c c'
  | call p a b, call p' a' b' => p == p' && same a a' && same b b'
  | filter p s a, filter p' s' a' => p == p' && s == s' && same a a'
  | tagCall p t a b, tagCall p' t' a' b' => p == p' && t == t' && same a a' && sameAll b b'
  | branch p s a b c, branch p' s' a' b' c' =>
    p == p' && s == s' && same a a' && same b b' && sameOption c c'
  | loop p m a b c d, loop p' m' a' b' c' d' =>
    p == p' && m == m' && same a a' && same b b' && same c c' && sameOption d d'
  | assign p a b c, assign p' a' b' c' =>
    p == p' && sameAll a a' && sameOption b b' && sameOption c c'
  | definition p r s a b, definition p' r' s' a' b' =>
    p == p' && r == r' && s == s' && same a a' && same b b'
  | block p s a, block p' s' a' => p == p' && s == s' && same a a'
  | overridden p s a, overridden p' s' a' => p == p' && s == s' && same a a'
  | extend p a, extend p' a' => p == p' && same a a'
  | embed p a i, embed p' a' i' => p == p' && i == i' && same a a'
  | importAll p a t c, importAll p' a' t' c' => p == p' && t == t' && c == c' && same a a'
  | importNames p a ns c, importNames p' a' ns' c' =>
    p == p' && ns == ns' && c == c' && same a a'
  | bind p a b, bind p' a' b' => p == p' && same a a' && same b b'
  | _, _ => false

/-- Whether two lists hold the same trees. -/
def sameAll : List Node → List Node → Bool
  | [], [] => true
  | a :: rest, a' :: rest' => same a a' && sameAll rest rest'
  | _, _ => false

/-- Whether two trees that may be missing are the same. -/
def sameOption : Option Node → Option Node → Bool
  | none, none => true
  | some a, some a' => same a a'
  | _, _ => false
end

end Stencil.Node
