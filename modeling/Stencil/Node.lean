/-
**Template trees.**

A template is read into a tree of nodes, each with the place it was read at.  Statements and
expressions are nodes alike; nodes of one role that differ in an operator or a mode share a
constructor.

Main definitions:

* `Stencil.Literal`, `Stencil.BinaryOp`, `Stencil.UnaryOp`, `Stencil.Comparison` — what
  expressions are built with;
* `Stencil.Node` — a node;
* `Stencil.Node.kindName` — the name of a node's kind, as error messages use it;
* `Stencil.Node.fields`, `Stencil.Node.children` — the parts of a node, in the order in which they
  are evaluated.
-/

import Stencil.Position

set_option autoImplicit false

namespace Stencil

/-! ### Parts of nodes -/

/-- A value written in a template. -/
inductive Literal where
  | none
  | bool (b : Bool)
  | int (n : Int)
  | float (x : Float)
  | string (s : String)
  | pattern (body flags : String)
  deriving BEq, Repr, Inhabited

/-- An operator between two operands. -/
inductive BinaryOp where
  | or
  | and
  /-- Whether the right operand holds the left one. -/
  | within
  /-- Whether the left operand passes the test that the right one names. -/
  | test
  | add
  | concat
  | sub
  | mul
  | div
  | floorDiv
  | mod
  | pow
  deriving DecidableEq, Repr, Inhabited

/-- An operator before its operand. -/
inductive UnaryOp where
  | not
  | neg
  | pos
  deriving DecidableEq, Repr, Inhabited

/-- An operator that compares. -/
inductive Comparison where
  | eq
  | strictEq
  | ne
  | strictNe
  | lt
  | gt
  | le
  | ge
  deriving DecidableEq, Repr, Inhabited

/-- The comparison that an operator stands for. -/
def Comparison.ofOperator? (op : String) : Option Comparison :=
  if op = "==" then some .eq
  else if op = "===" then some .strictEq
  else if op = "!=" then some .ne
  else if op = "!==" then some .strictNe
  else if op = "<" then some .lt
  else if op = ">" then some .gt
  else if op = "<=" then some .le
  else if op = ">=" then some .ge
  else none

/-- The operator of a comparison. -/
def Comparison.operator : Comparison → String
  | eq => "=="
  | strictEq => "==="
  | ne => "!="
  | strictNe => "!=="
  | lt => "<"
  | gt => ">"
  | le => "<="
  | ge => ">="

/-- The kinds of nodes that are a list of nodes and nothing else. -/
inductive GroupKind where
  /-- A whole template. -/
  | root
  /-- A body, a list of arguments or a list of statements. -/
  | sequence
  /-- What is written to the output. -/
  | output
  | array
  /-- Pairs of keys and values. -/
  | dict
  /-- Pairs of names and values, the last of a list of arguments. -/
  | keywords
  deriving DecidableEq, Repr, Inhabited

/-- How the iterations of a loop run. -/
inductive LoopMode where
  /-- One after the other, none of them suspending. -/
  | plain
  /-- One after the other. -/
  | each
  /-- All at once. -/
  | all
  deriving DecidableEq, Repr, Inhabited

/-- Whether a definition names a macro or is the body of a call. -/
inductive MacroRole where
  | named
  | caller
  deriving DecidableEq, Repr, Inhabited

/-- A name that is imported, and the name it gets. -/
structure ImportName where
  name : String
  newName : Option String
  deriving DecidableEq, Repr, Inhabited

/-- Which method of which extension a tag calls. -/
structure TagCall where
  extension : String
  method : String
  /-- Whether the result is escaped. -/
  autoescape : Bool
  /-- Whether the call may suspend. -/
  suspends : Bool
  deriving DecidableEq, Repr, Inhabited

/-- The name of a kind of list. -/
def GroupKind.name : GroupKind → String
  | root => "Root"
  | sequence => "NodeList"
  | output => "Output"
  | array => "Array"
  | dict => "Dict"
  | keywords => "KeywordArgs"

/-- The name of an operator between two operands. -/
def BinaryOp.name : BinaryOp → String
  | or => "Or"
  | and => "And"
  | within => "In"
  | test => "Is"
  | add => "Add"
  | concat => "Concat"
  | sub => "Sub"
  | mul => "Mul"
  | div => "Div"
  | floorDiv => "FloorDiv"
  | mod => "Mod"
  | pow => "Pow"

/-- The name of an operator before its operand. -/
def UnaryOp.name : UnaryOp → String
  | not => "Not"
  | neg => "Neg"
  | pos => "Pos"

/-- The name of a kind of loop. -/
def LoopMode.name : LoopMode → String
  | plain => "For"
  | each => "AsyncEach"
  | all => "AsyncAll"

/-- The name of a kind of definition. -/
def MacroRole.name : MacroRole → String
  | named => "Macro"
  | caller => "Caller"

/-! ### Nodes -/

/-- A node of a template tree, with its place. -/
inductive Node where
  | group (kind : GroupKind) (position : Position) (children : List Node)
  | text (position : Position) (content : String)
  /-- A body whose output is a value. -/
  | capture (position : Position) (body : Node)
  | literal (position : Position) (value : Literal)
  | symbol (position : Position) (name : String)
  | pair (position : Position) (key value : Node)
  | binary (position : Position) (op : BinaryOp) (left right : Node)
  | unary (position : Position) (op : UnaryOp) (target : Node)
  /-- A chain of comparisons; the operands are operand nodes. -/
  | compare (position : Position) (first : Node) (operands : List Node)
  | operand (position : Position) (op : Comparison) (value : Node)
  /-- A conditional expression. -/
  | choice (position : Position) (condition body : Node) (otherwise : Option Node)
  | lookup (position : Position) (target key : Node)
  | slice (position : Position) (start stop step : Option Node)
  /-- A call; the arguments are a sequence that may end in keywords. -/
  | call (position : Position) (callee arguments : Node)
  /-- A filter; the arguments are a sequence whose first member is filtered. -/
  | filter (position : Position) (name : String) (arguments : Node)
  | tagCall (position : Position) (call : TagCall) (arguments : Node) (content : List Node)
  /-- A conditional statement, which may suspend if so marked. -/
  | branch (position : Position) (suspends : Bool) (condition body : Node)
      (otherwise : Option Node)
  /-- A loop; the target is a symbol or an array of symbols. -/
  | loop (position : Position) (mode : LoopMode) (source target body : Node)
      (otherwise : Option Node)
  /-- An assignment of a value, or of a captured body. -/
  | assign (position : Position) (targets : List Node) (value body : Option Node)
  /-- A macro; the parameters are a sequence of symbols that may end in keywords. -/
  | definition (position : Position) (role : MacroRole) (name : String) (parameters body : Node)
  | block (position : Position) (name : String) (body : Node)
  /-- The overridden block is rendered and bound to the target. -/
  | overridden (position : Position) (name : String) (target : Node)
  | extend (position : Position) (template : Node)
  | embed (position : Position) (template : Node) (ignoreMissing : Bool)
  | importAll (position : Position) (template : Node) (target : String) (withContext : Bool)
  | importNames (position : Position) (template : Node) (names : List ImportName)
      (withContext : Bool)
  /-- A call that may suspend is made and bound to the target. -/
  | bind (position : Position) (call target : Node)

namespace Node

instance : Inhabited Node := ⟨.symbol default default⟩

/-- The place of a node. -/
def position : Node → Position
  | group _ p _ | text p _ | capture p _ | literal p _ | symbol p _ | pair p _ _
  | binary p _ _ _ | unary p _ _ | compare p _ _ | operand p _ _ | choice p _ _ _
  | lookup p _ _ | slice p _ _ _ | call p _ _ | filter p _ _ | tagCall p _ _ _
  | branch p _ _ _ _ | loop p _ _ _ _ _ | assign p _ _ _ | definition p _ _ _ _
  | block p _ _ | overridden p _ _ | extend p _ | embed p _ _ | importAll p _ _ _
  | importNames p _ _ _ | bind p _ _ => p

/-- A body, a list of arguments or a list of statements. -/
def sequence (p : Position) (children : List Node) : Node := .group .sequence p children

/-- Something that is written to the output. -/
def output (p : Position) (child : Node) : Node := .group .output p [child]

/-- A text as a literal. -/
def stringLiteral (p : Position) (s : String) : Node := .literal p (.string s)

/-- The name of a node that is a symbol. -/
def asSymbol? : Node → Option String
  | symbol _ name => some name
  | _ => none

/-- The members of a node that is a list of nodes. -/
def members : Node → List Node
  | group _ _ children => children
  | _ => []

/-! ### Kinds -/

/-- The name of a node's kind. -/
def kindName : Node → String
  | group kind _ _ => kind.name
  | text _ _ => "TemplateData"
  | capture _ _ => "Capture"
  | literal _ _ => "Literal"
  | symbol _ _ => "Symbol"
  | pair _ _ _ => "Pair"
  | binary _ op _ _ => op.name
  | unary _ op _ => op.name
  | compare _ _ _ => "Compare"
  | operand _ _ _ => "CompareOperand"
  | choice _ _ _ _ => "InlineIf"
  | lookup _ _ _ => "LookupVal"
  | slice _ _ _ _ => "Slice"
  | call _ _ _ => "FunCall"
  | filter _ _ _ => "Filter"
  | tagCall _ t _ _ => if t.suspends then "CallExtensionAsync" else "CallExtension"
  | branch _ suspends _ _ _ => if suspends then "IfAsync" else "If"
  | loop _ mode _ _ _ _ => mode.name
  | assign _ _ _ _ => "Set"
  | definition _ role _ _ _ => role.name
  | block _ _ _ => "Block"
  | overridden _ _ _ => "Super"
  | extend _ _ => "Extends"
  | embed _ _ _ => "Include"
  | importAll _ _ _ _ => "Import"
  | importNames _ _ _ _ => "FromImport"
  | bind _ _ _ => "AsyncBind"

/-! ### Fields -/

/-- A part of a node that holds nodes. -/
inductive Field where
  | one (child : Node)
  | optional (child : Option Node)
  | many (children : List Node)

/-- The nodes in a part. -/
def Field.nodes : Field → List Node
  | one child => [child]
  | optional child => child.toList
  | many children => children

/-- The parts of a node with their names, in the order in which they are evaluated. -/
def fields : Node → List (String × Field)
  | group _ _ children => [("children", .many children)]
  | text _ _ | literal _ _ | symbol _ _ => []
  | capture _ body => [("body", .one body)]
  | pair _ key value => [("key", .one key), ("value", .one value)]
  | binary _ _ left right => [("left", .one left), ("right", .one right)]
  | unary _ _ target => [("target", .one target)]
  | compare _ first operands => [("expr", .one first), ("ops", .many operands)]
  | operand _ _ value => [("expr", .one value)]
  | choice _ condition body otherwise =>
    [("cond", .one condition), ("body", .one body), ("else_", .optional otherwise)]
  | lookup _ target key => [("target", .one target), ("val", .one key)]
  | slice _ start stop step =>
    [("start", .optional start), ("stop", .optional stop), ("step", .optional step)]
  | call _ callee arguments => [("name", .one callee), ("args", .one arguments)]
  | filter _ _ arguments => [("args", .one arguments)]
  | tagCall _ _ arguments content => [("args", .one arguments), ("content", .many content)]
  | branch _ _ condition body otherwise =>
    [("cond", .one condition), ("body", .one body), ("else_", .optional otherwise)]
  | loop _ _ source target body otherwise =>
    [("arr", .one source), ("name", .one target), ("body", .one body),
      ("else_", .optional otherwise)]
  | assign _ targets value body =>
    [("targets", .many targets), ("value", .optional value), ("body", .optional body)]
  | definition _ _ _ parameters body => [("args", .one parameters), ("body", .one body)]
  | block _ _ body => [("body", .one body)]
  | overridden _ _ target => [("symbol", .one target)]
  | extend _ template => [("template", .one template)]
  | embed _ template _ => [("template", .one template)]
  | importAll _ template _ _ => [("template", .one template)]
  | importNames _ template _ _ => [("template", .one template)]
  | bind _ action target => [("call", .one action), ("symbol", .one target)]

/-- The nodes directly below a node. -/
def children (n : Node) : List Node := n.fields.flatMap fun (_, field) => field.nodes

end Node

end Stencil
