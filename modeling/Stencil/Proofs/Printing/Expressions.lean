/-
**Printed expressions.**

An expression of a template is printed in pieces, with parentheses only where a looser one stands in
the place of a tighter one.  This module says what the expressions are, which tree each of them is
read into, and how they are printed; `Stencil.Proofs.Printing.Operators` and
`Stencil.Proofs.Printing.Terms` prove that printing is undone by reading.

Main definitions:

* `Stencil.Node.bare` — a tree without its places;
* `Stencil.Syntax.Expression` — an expression that can be printed;
* `Stencil.Syntax.Expression.node` — the tree of an expression;
* `Stencil.Syntax.Level`, `Stencil.Syntax.Expression.level` — how tight an expression binds;
* `Stencil.Syntax.Expression.pieces` — an expression as it is printed;
* `Stencil.Syntax.Expression.piecesAt` — an expression where one of some level is wanted.
-/

import Mathlib.Algebra.Group.Nat.Defs
import Stencil.Parser.Template
import Stencil.Proofs.Printing.Pieces

set_option autoImplicit false

namespace Stencil

/-! ### Trees without places -/

namespace Node

mutual
/-- A tree without its places: all of them are the start of the template. -/
def bare : Node → Node
  | group k _ ns => group k .start (bareAll ns)
  | text _ s => text .start s
  | capture _ a => capture .start (bare a)
  | literal _ v => literal .start v
  | symbol _ s => symbol .start s
  | pair _ a b => pair .start (bare a) (bare b)
  | binary _ o a b => binary .start o (bare a) (bare b)
  | unary _ o a => unary .start o (bare a)
  | compare _ a ns => compare .start (bare a) (bareAll ns)
  | operand _ o a => operand .start o (bare a)
  | choice _ a b c => choice .start (bare a) (bare b) (bareOption c)
  | lookup _ a b => lookup .start (bare a) (bare b)
  | slice _ a b c => slice .start (bareOption a) (bareOption b) (bareOption c)
  | call _ a b => call .start (bare a) (bare b)
  | filter _ s a => filter .start s (bare a)
  | tagCall _ t a ns => tagCall .start t (bare a) (bareAll ns)
  | branch _ s a b c => branch .start s (bare a) (bare b) (bareOption c)
  | loop _ m a b c d => loop .start m (bare a) (bare b) (bare c) (bareOption d)
  | assign _ ns a b => assign .start (bareAll ns) (bareOption a) (bareOption b)
  | definition _ r s a b => definition .start r s (bare a) (bare b)
  | block _ s a => block .start s (bare a)
  | overridden _ s a => overridden .start s (bare a)
  | extend _ a => extend .start (bare a)
  | embed _ a i => embed .start (bare a) i
  | importAll _ a t c => importAll .start (bare a) t c
  | importNames _ a ns c => importNames .start (bare a) ns c
  | bind _ a b => bind .start (bare a) (bare b)

/-- The trees of a list without their places. -/
def bareAll : List Node → List Node
  | [] => []
  | n :: rest => bare n :: bareAll rest

/-- A tree that may be missing without its places. -/
def bareOption : Option Node → Option Node
  | none => none
  | some n => some (bare n)
end

@[simp] theorem bareAll_eq_map (ns : List Node) : bareAll ns = ns.map bare := by
  induction ns with
  | nil => rfl
  | cons n rest ih => rw [bareAll, ih, List.map_cons]

@[simp] theorem bareOption_eq_map (n : Option Node) : bareOption n = n.map bare := by
  cases n <;> rfl

theorem members_bare (n : Node) : n.bare.members = n.members.map bare := by
  cases n <;> simp [bare, members]

end Node

namespace Syntax

/-! ### Words -/

/-- The words that expressions are put together with. -/
def reserved : List String := ["if", "else", "or", "and", "not", "in", "is"]

/-- A word that the lexer takes for a symbol. -/
structure Word where
  text : String
  isSymbol : Lexeme.wordKind? text.toList = some .symbol

/-- A word that can stand for a value. -/
structure Name extends Word where
  free : text ∉ reserved

/-! ### Expressions -/

/-- An operator between two operands, `in` and `is` left out. -/
inductive Infix where
  | or
  | and
  | add
  | concat
  | sub
  | mul
  | div
  | floorDiv
  | mod
  | pow
  deriving DecidableEq

/-- What `in` and `is` say of their operands. -/
inductive Relation where
  | within
  | test
  deriving DecidableEq

/-- An expression that can be printed. -/
inductive Expression where
  | absent
  | truth (b : Bool)
  | number (n : Fin (2 ^ 63))
  | text (s : String)
  | name (x : Name)
  | array (items : List Expression)
  /-- Keys and values; a key that is a name stands for itself. -/
  | dict (entries : List (Expression × Expression))
  | unary (op : UnaryOp) (target : Expression)
  | binary (op : Infix) (left right : Expression)
  | relate (op : Relation) (negated : Bool) (left right : Expression)
  /-- At least two operands with comparisons between them. -/
  | compare (first : Expression) (op : Comparison) (second : Expression)
      (more : List (Comparison × Expression))
  | choice (condition body : Expression) (otherwise : Option Expression)
  | subscript (target key : Expression)
  | slice (target : Expression) (start stop step : Option Expression)
  | call (callee : Expression) (positional : List Expression) (keywords : List (Name × Expression))
  /-- The name of a filter may have points in it. -/
  | filter (value : Expression) (name : Word) (members : List Word) (positional : List Expression)
      (keywords : List (Name × Expression))

/-! ### Induction -/

namespace Expression

/-- What holds of an expression if it holds of its parts, holds of all expressions. -/
@[elab_as_elim, induction_eliminator]
theorem induction {P : Expression → Prop} (absent : P absent) (truth : ∀ b, P (truth b))
    (number : ∀ n, P (number n)) (text : ∀ s, P (text s)) (name : ∀ x, P (name x))
    (array : ∀ items, (∀ a ∈ items, P a) → P (array items))
    (dict : ∀ entries, (∀ e ∈ entries, P e.1 ∧ P e.2) → P (dict entries))
    (unary : ∀ op a, P a → P (unary op a)) (binary : ∀ op a b, P a → P b → P (binary op a b))
    (relate : ∀ op negated a b, P a → P b → P (relate op negated a b))
    (compare : ∀ a op b more, P a → P b → (∀ e ∈ more, P e.2) → P (compare a op b more))
    (choice : ∀ a b c, P a → P b → (∀ e ∈ c, P e) → P (choice a b c))
    (subscript : ∀ a b, P a → P b → P (subscript a b))
    (slice : ∀ a b c d, P a → (∀ e ∈ b, P e) → (∀ e ∈ c, P e) → (∀ e ∈ d, P e) →
      P (slice a b c d))
    (call : ∀ a args keywords, P a → (∀ e ∈ args, P e) → (∀ e ∈ keywords, P e.2) →
      P (call a args keywords))
    (filter : ∀ a x members args keywords, P a → (∀ e ∈ args, P e) → (∀ e ∈ keywords, P e.2) →
      P (filter a x members args keywords)) (a : Expression) : P a :=
  @Expression.rec P (fun as => ∀ a ∈ as, P a) (fun es => ∀ e ∈ es, P e.1 ∧ P e.2)
    (fun es => ∀ e ∈ es, P e.2) (fun e => ∀ a ∈ e, P a) (fun es => ∀ e ∈ es, P e.2)
    (fun e => P e.1 ∧ P e.2) (fun e => P e.2) (fun e => P e.2)
    absent truth number text name array dict unary binary relate compare choice subscript slice
    call filter
    (fun _ h => by cases h) (fun _ _ h hs => List.forall_mem_cons.2 ⟨h, hs⟩)
    (fun _ h => by cases h) (fun _ _ h hs => List.forall_mem_cons.2 ⟨h, hs⟩)
    (fun _ h => by cases h) (fun _ _ h hs => List.forall_mem_cons.2 ⟨h, hs⟩)
    (fun _ h => by cases h) (fun _ h _ ha => Option.mem_some.1 ha ▸ h)
    (fun _ h => by cases h) (fun _ _ h hs => List.forall_mem_cons.2 ⟨h, hs⟩)
    (fun _ _ h h' => ⟨h, h'⟩) (fun _ _ h => h) (fun _ _ h => h) a

end Expression

/-! ### Trees -/

/-- The operator of an expression with two operands. -/
def Infix.op : Infix → BinaryOp
  | or => .or
  | and => .and
  | add => .add
  | concat => .concat
  | sub => .sub
  | mul => .mul
  | div => .div
  | floorDiv => .floorDiv
  | mod => .mod
  | pow => .pow

/-- The operator of what `in` or `is` says. -/
def Relation.op : Relation → BinaryOp
  | within => .within
  | test => .test

/-! ### Trees -/

/-- A list of keywords, unless it is empty. -/
def keywordGroup (pairs : List Node) : List Node :=
  if pairs.isEmpty then [] else [.group .keywords .start pairs]

/-- The key of an entry: a name stands for itself. -/
def entryKey : Node → Node
  | .symbol p name => .stringLiteral p name
  | key => key

namespace Expression

mutual
/-- The tree of an expression. -/
def node : Expression → Node
  | absent => .literal .start .none
  | truth b => .literal .start (.bool b)
  | number n => .literal .start (.int n)
  | text s => .literal .start (.string s)
  | name x => .symbol .start x.text
  | array items => .group .array .start (nodes items)
  | dict entries => .group .dict .start (entryNodes entries)
  | unary op a => .unary .start op a.node
  | binary op a b => .binary .start op.op a.node b.node
  | relate op negated a b =>
    let n := Node.binary .start op.op a.node b.node
    if negated then .unary .start .not n else n
  | compare a op b more => .compare .start a.node (.operand .start op b.node :: operandNodes more)
  | choice a b c => .choice .start a.node b.node (optionNode c)
  | subscript a b => .lookup .start a.node b.node
  | slice a b c d =>
    .lookup .start a.node (.slice .start (optionNode b) (optionNode c) (optionNode d))
  | call a args keywords =>
    .call .start a.node (.sequence .start (nodes args ++ keywordGroup (keywordNodes keywords)))
  | filter a x members args keywords =>
    .filter .start (members.foldl (fun name x => name ++ "." ++ x.text) x.text)
      (.sequence .start (a.node :: (nodes args ++ keywordGroup (keywordNodes keywords))))

/-- The trees of expressions. -/
def nodes : List Expression → List Node
  | [] => []
  | a :: more => a.node :: nodes more

/-- The trees of keys and values. -/
def entryNodes : List (Expression × Expression) → List Node
  | [] => []
  | (key, value) :: more => .pair .start (entryKey key.node) value.node :: entryNodes more

/-- The trees of names and values. -/
def keywordNodes : List (Name × Expression) → List Node
  | [] => []
  | (x, value) :: more => .pair .start (.symbol .start x.text) value.node :: keywordNodes more

/-- The trees of comparisons and operands. -/
def operandNodes : List (Comparison × Expression) → List Node
  | [] => []
  | (op, a) :: more => .operand .start op a.node :: operandNodes more

/-- The tree of an expression that may be missing. -/
def optionNode : Option Expression → Option Node
  | none => none
  | some a => some a.node
end

end Expression

/-! ### Levels -/

/-- How tight an expression binds, from the loosest. -/
inductive Level where
  | choice
  | or
  | and
  | not
  | compare
  | sum
  | product
  | sign
  | power
  | suffix
  | atom
  deriving DecidableEq

/-- The place of a level among the others. -/
def Level.rank : Level → Nat
  | choice => 1
  | or => 2
  | and => 3
  | not => 4
  | compare => 5
  | sum => 6
  | product => 7
  | sign => 8
  | power => 9
  | suffix => 10
  | atom => 11

/-- The level that is tighter by one. -/
def Level.next : Level → Level
  | choice => or
  | or => and
  | and => not
  | not => compare
  | compare => sum
  | sum => product
  | product => sign
  | sign => power
  | power => suffix
  | suffix | atom => atom

/-- The level of an operator between two operands. -/
def Infix.level : Infix → Level
  | or => .or
  | and => .and
  | add | concat | sub => .sum
  | mul | div | floorDiv | mod => .product
  | pow => .power

/-- How tight an expression binds. -/
def Expression.level : Expression → Level
  | choice _ _ _ => .choice
  | binary op _ _ => op.level
  | unary .not _ => .not
  | unary _ _ => .sign
  | relate _ _ _ _ | compare _ _ _ _ => .compare
  | subscript _ _ | slice _ _ _ _ | call _ _ _ | filter _ _ _ _ _ => .suffix
  | _ => .atom

/-! ### Pieces -/

open Piece (mark word)

/-- The piece of an operator between two operands. -/
def Infix.piece : Infix → Piece
  | or => word "or"
  | and => word "and"
  | add => mark "+"
  | concat => mark "~"
  | sub => mark "-"
  | mul => mark "*"
  | div => mark "/"
  | floorDiv => mark "//"
  | mod => mark "%"
  | pow => mark "**"

/-- The piece of an operator before its operand. -/
def unaryPiece : UnaryOp → Piece
  | .not => word "not"
  | .neg => mark "-"
  | .pos => mark "+"

/-- The pieces of `in`, `not in`, `is` and `is not`. -/
def Relation.pieces : Relation → Bool → List Piece
  | within, false => [word "in"]
  | within, true => [word "not", word "in"]
  | test, false => [word "is"]
  | test, true => [word "is", word "not"]

/-- Pieces between parentheses. -/
def parenthesized (ts : List Piece) : List Piece := mark "(" :: (ts ++ [mark ")"])

/-- An expression of a level where one of another level is wanted. -/
def wrapped (wanted level : Level) (ts : List Piece) : List Piece :=
  if wanted.rank ≤ level.rank then ts else parenthesized ts

/-- Lists of pieces with commas between them. -/
def separated : List (List Piece) → List Piece
  | [] => []
  | [ts] => ts
  | ts :: more => ts ++ mark "," :: separated more

/-- The pieces of a name with points in it. -/
def dotted (x : Word) (members : List Word) : List Piece :=
  word x.text :: members.flatMap fun y => [mark ".", word y.text]

namespace Expression

/-- Whether an expression is a filter without arguments, which takes those that follow it. -/
def isBareFilter : Expression → Bool
  | filter _ _ _ [] [] => true
  | _ => false

/-- Whether an expression is a chain of comparisons, which goes on with a further comparison. -/
def isCompare : Expression → Bool
  | compare _ _ _ _ => true
  | _ => false

/-- The level that is wanted of what is called. -/
def calleeLevel (a : Expression) : Level := if a.isBareFilter then .atom else .suffix

/-- The level that is wanted of what is compared first. -/
def firstLevel (a : Expression) : Level := if a.isCompare then .sum else .compare

mutual
/-- An expression as it is printed. -/
def pieces : Expression → List Piece
  | absent => [⟨.nothing, "none"⟩]
  | truth b => [⟨.boolean, if b then "true" else "false"⟩]
  | number n => [⟨.int, n.val.repr⟩]
  | text s => [⟨.string, s⟩]
  | name x => [word x.text]
  | array items => mark "[" :: (separated (each items) ++ [mark "]"])
  | dict entries => mark "\x7b" :: (separated (eachEntry entries) ++ [mark "\x7d"])
  | unary .not a => word "not" :: wrapped .not a.level a.pieces
  | unary op a => unaryPiece op :: wrapped .sign a.level a.pieces
  | binary .pow a b =>
    wrapped .suffix a.level a.pieces ++ mark "**" :: wrapped .sign b.level b.pieces
  | binary op a b =>
    wrapped op.level a.level a.pieces ++ op.piece :: wrapped op.level.next b.level b.pieces
  | relate op negated a b =>
    wrapped .compare a.level a.pieces ++ op.pieces negated ++ wrapped .sum b.level b.pieces
  | compare a op b more =>
    wrapped a.firstLevel a.level a.pieces ++
      mark op.operator :: (wrapped .sum b.level b.pieces ++ eachOperand more)
  | choice a b c =>
    wrapped .or b.level b.pieces ++ word "if" :: (wrapped .or a.level a.pieces ++ otherwise c)
  | subscript a b => wrapped .suffix a.level a.pieces ++ mark "[" :: (b.pieces ++ [mark "]"])
  | slice a b c d =>
    wrapped .suffix a.level a.pieces ++
      mark "[" :: (maybe b ++ mark ":" :: (maybe c ++ (stride d ++ [mark "]"])))
  | call a args keywords =>
    wrapped a.calleeLevel a.level a.pieces ++
      parenthesized (separated (each args ++ eachKeyword keywords))
  | filter a x members args keywords =>
    wrapped .suffix a.level a.pieces ++ mark "|" :: (dotted x members ++
      if args.isEmpty && keywords.isEmpty then []
      else parenthesized (separated (each args ++ eachKeyword keywords)))

/-- Expressions as they are printed. -/
def each : List Expression → List (List Piece)
  | [] => []
  | a :: more => a.pieces :: each more

/-- Keys and values as they are printed. -/
def eachEntry : List (Expression × Expression) → List (List Piece)
  | [] => []
  | (key, value) :: more =>
    (wrapped .atom key.level key.pieces ++ mark ":" :: value.pieces) :: eachEntry more

/-- Names and values as they are printed. -/
def eachKeyword : List (Name × Expression) → List (List Piece)
  | [] => []
  | (x, value) :: more => (word x.text :: mark "=" :: value.pieces) :: eachKeyword more

/-- Comparisons and operands as they are printed. -/
def eachOperand : List (Comparison × Expression) → List Piece
  | [] => []
  | (op, a) :: more =>
    mark op.operator :: (wrapped .sum a.level a.pieces ++ eachOperand more)

/-- What is chosen otherwise, as it is printed. -/
def otherwise : Option Expression → List Piece
  | none => []
  | some a => word "else" :: a.pieces

/-- The start or the stop of a slice as it is printed. -/
def maybe : Option Expression → List Piece
  | none => []
  | some a => a.pieces

/-- The step of a slice as it is printed. -/
def stride : Option Expression → List Piece
  | none => []
  | some a => mark ":" :: a.pieces
end

/-- An expression where one of some level is wanted. -/
def piecesAt (wanted : Level) (a : Expression) : List Piece := wrapped wanted a.level a.pieces

end Expression

/-! ### Lists of parts -/

namespace Expression

@[simp] theorem nodes_eq_map (as : List Expression) : nodes as = as.map node := by
  induction as with
  | nil => rfl
  | cons a more ih => rw [nodes, ih, List.map_cons]

@[simp] theorem each_eq_map (as : List Expression) : each as = as.map pieces := by
  induction as with
  | nil => rfl
  | cons a more ih => rw [each, ih, List.map_cons]

end Expression

/-! ### What is printed can stand inside of a tag -/

/-- Pieces that can stand inside of a tag. -/
def Inside (ts : List Piece) : Prop := ∀ t ∈ ts, t.Inner

namespace Inside

variable {t : Piece} {ts us : List Piece}

theorem nil : Inside [] := fun _ h => by cases h

theorem cons (ht : t.Inner) (h : Inside ts) : Inside (t :: ts) := List.forall_mem_cons.2 ⟨ht, h⟩

theorem append (h : Inside ts) (h' : Inside us) : Inside (ts ++ us) :=
  List.forall_mem_append.2 ⟨h, h'⟩

theorem single (ht : t.Inner) : Inside [t] := cons ht nil

theorem parenthesized (h : Inside ts) : Inside (parenthesized ts) :=
  cons (.mark (by decide)) (append h (single (.mark (by decide))))

theorem wrapped {wanted level : Level} (h : Inside ts) : Inside (wrapped wanted level ts) := by
  unfold Syntax.wrapped
  split
  · exact h
  · exact h.parenthesized

theorem separated {tss : List (List Piece)} (h : ∀ ts ∈ tss, Inside ts) :
    Inside (separated tss) := by
  induction tss with
  | nil => exact nil
  | cons ts more ih =>
      obtain ⟨hts, hmore⟩ := List.forall_mem_cons.1 h
      cases more with
      | nil => exact hts
      | cons us more => exact append hts (cons (.mark (by decide)) (ih hmore))

theorem dotted (x : Word) (members : List Word) : Inside (dotted x members) := by
  refine cons (.word x.isSymbol) fun t ht => ?_
  obtain ⟨y, _, hy⟩ := List.mem_flatMap.1 ht
  exact cons (.mark (by decide)) (single (.word y.isSymbol)) t hy

end Inside

/-- A reserved word is a symbol. -/
theorem inner_reserved {s : String} (h : s ∈ reserved) : (word s).Inner := by
  have hall : ∀ s ∈ reserved, Lexeme.wordKind? s.toList = some .symbol := by decide
  exact .word (hall s h)

theorem inner_operator (op : Infix) : op.piece.Inner := by
  cases op with
  | or | and => exact inner_reserved (by decide)
  | _ => exact .mark (by decide)

theorem inner_unary (op : UnaryOp) : (unaryPiece op).Inner := by
  cases op with
  | not => exact inner_reserved (by decide)
  | _ => exact .mark (by decide)

theorem inner_comparison (op : Comparison) : (mark op.operator).Inner := by
  cases op <;> exact .mark (by decide)

theorem inside_relation (op : Relation) (negated : Bool) : Inside (op.pieces negated) := by
  have hin := inner_reserved (s := "in") (by decide)
  have his := inner_reserved (s := "is") (by decide)
  have hnot := inner_reserved (s := "not") (by decide)
  cases op <;> cases negated
  · exact .single hin
  · exact .cons hnot (.single hin)
  · exact .single his
  · exact .cons his (.single hnot)

namespace Expression

theorem inside_each {as : List Expression} (h : ∀ a ∈ as, Inside a.pieces) :
    ∀ ts ∈ each as, Inside ts := by
  rw [each_eq_map]
  exact List.forall_mem_map.2 h

theorem inside_eachKeyword {keywords : List (Name × Expression)}
    (h : ∀ e ∈ keywords, Inside e.2.pieces) : ∀ ts ∈ eachKeyword keywords, Inside ts := by
  induction keywords with
  | nil => exact fun _ hts => by cases hts
  | cons e more ih =>
      obtain ⟨he, hmore⟩ := List.forall_mem_cons.1 h
      exact List.forall_mem_cons.2
        ⟨.cons (.word e.1.isSymbol) (.cons (.mark (by decide)) he), ih hmore⟩

/-- The arguments of a call or of a filter. -/
theorem inside_arguments {args : List Expression} {keywords : List (Name × Expression)}
    (hargs : ∀ a ∈ args, Inside a.pieces) (hkeywords : ∀ e ∈ keywords, Inside e.2.pieces) :
    Inside (parenthesized (separated (each args ++ eachKeyword keywords))) :=
  .parenthesized (.separated (List.forall_mem_append.2
    ⟨inside_each hargs, inside_eachKeyword hkeywords⟩))

/-- What is printed of an expression can stand inside of a tag. -/
theorem inside_pieces (a : Expression) : Inside a.pieces := by
  induction a with
  | absent => exact .single (.word (by decide))
  | truth b => cases b <;> exact .single (.word (by decide))
  | number n => exact .single (.number n.val)
  | text s => exact .single (.string s)
  | name x => exact .single (.word x.isSymbol)
  | array items ih =>
      exact .cons (.mark (by decide))
        (.append (.separated (inside_each ih)) (.single (.mark (by decide))))
  | dict entries ih =>
      refine .cons (.mark (by decide)) (.append (.separated ?_) (.single (.mark (by decide))))
      induction entries with
      | nil => exact fun _ hts => by cases hts
      | cons e more ih' =>
          obtain ⟨⟨hkey, hvalue⟩, hmore⟩ := List.forall_mem_cons.1 ih
          exact List.forall_mem_cons.2
            ⟨.append hkey.wrapped (.cons (.mark (by decide)) hvalue), ih' hmore⟩
  | unary op a ih =>
      cases op with
      | not => exact .cons (inner_unary .not) ih.wrapped
      | neg => exact .cons (inner_unary .neg) ih.wrapped
      | pos => exact .cons (inner_unary .pos) ih.wrapped
  | binary op a b iha ihb =>
      cases op with
      | pow => exact .append iha.wrapped (.cons (inner_operator .pow) ihb.wrapped)
      | _ => exact .append iha.wrapped (.cons (inner_operator _) ihb.wrapped)
  | relate op negated a b iha ihb =>
      exact .append (.append iha.wrapped (inside_relation op negated)) ihb.wrapped
  | compare a op b more iha ihb ih =>
      refine .append iha.wrapped (.cons (inner_comparison op) (.append ihb.wrapped ?_))
      induction more with
      | nil => exact .nil
      | cons e more ih' =>
          obtain ⟨he, hmore⟩ := List.forall_mem_cons.1 ih
          exact .cons (inner_comparison e.1) (.append he.wrapped (ih' hmore))
  | choice a b c iha ihb ihc =>
      refine .append ihb.wrapped (.cons (inner_reserved (by decide)) (.append iha.wrapped ?_))
      cases c with
      | none => exact .nil
      | some c => exact .cons (inner_reserved (by decide)) (ihc c rfl)
  | subscript a b iha ihb =>
      exact .append iha.wrapped
        (.cons (.mark (by decide)) (.append ihb (.single (.mark (by decide)))))
  | slice a b c d iha ihb ihc ihd =>
      have hmaybe : ∀ {e : Option Expression}, (∀ a ∈ e, Inside a.pieces) → Inside (maybe e) := by
        intro e he
        cases e with
        | none => exact .nil
        | some a => exact he a rfl
      refine .append iha.wrapped (.cons (.mark (by decide)) (.append (hmaybe ihb)
        (.cons (.mark (by decide)) (.append (hmaybe ihc) (.append ?_ (.single (.mark (by decide))))))))
      cases d with
      | none => exact .nil
      | some d => exact .cons (.mark (by decide)) (ihd d rfl)
  | call a args keywords iha ihargs ihkeywords =>
      exact .append iha.wrapped (inside_arguments ihargs ihkeywords)
  | filter a x members args keywords iha ihargs ihkeywords =>
      refine .append iha.wrapped (.cons (.mark (by decide)) (.append (.dotted x members) ?_))
      split
      · exact .nil
      · exact inside_arguments ihargs ihkeywords

end Expression

/-! ### What an expression starts with -/

/-- A piece that can start an expression of a level. -/
structure Starts (level : Level) (t : Piece) : Prop where
  kind : t.kind ∈ [.nothing, .boolean, .int, .string, .symbol, .leftParen, .leftBracket, .leftCurly,
    .operator]
  not : t = word "not" → level.rank ≤ Level.not.rank
  sign : t.kind = .operator → level.rank ≤ Level.sign.rank

/-- Pieces of which the first can start an expression of a level. -/
def StartsWith (level : Level) (ts : List Piece) : Prop := ∃ t us, ts = t :: us ∧ Starts level t

theorem Starts.loosen {level level' : Level} {t : Piece} (h : Starts level t)
    (hle : level'.rank ≤ level.rank) : Starts level' t :=
  ⟨h.kind, fun ht => hle.trans (h.not ht), fun ht => hle.trans (h.sign ht)⟩

namespace StartsWith

variable {level level' wanted : Level} {ts : List Piece}

theorem loosen (h : StartsWith level ts) (hle : level'.rank ≤ level.rank) :
    StartsWith level' ts := by
  obtain ⟨t, us, rfl, ht⟩ := h
  exact ⟨t, us, rfl, ht.loosen hle⟩

theorem append (h : StartsWith level ts) (us : List Piece) : StartsWith level (ts ++ us) := by
  obtain ⟨t, us', rfl, ht⟩ := h
  exact ⟨t, us' ++ us, rfl, ht⟩

theorem wrapped (h : StartsWith level ts) : StartsWith wanted (wrapped wanted level ts) := by
  unfold Syntax.wrapped
  split
  · next hle => exact h.loosen hle
  · exact ⟨_, _, rfl, by decide, fun h => absurd h (by decide), fun h => absurd h (by decide)⟩

end StartsWith

namespace Expression

/-- A piece of an atom that is neither a symbol nor an operator. -/
theorem startsWith_plain {level : Level} {t : Piece} {ts : List Piece}
    (hkind : t.kind ∈ [.nothing, .boolean, .int, .string, .leftBracket, .leftCurly]) :
    StartsWith level (t :: ts) := by
  obtain ⟨kind, value⟩ := t
  refine ⟨_, _, rfl, ?_, ?_, ?_⟩
  · cases kind <;> simp_all
  · rintro ⟨⟩
    simp at hkind
  · rintro rfl
    simp at hkind

/-- An expression starts with a piece that can start one of its level. -/
theorem startsWith_pieces (a : Expression) : StartsWith a.level a.pieces := by
  induction a with
  | absent | truth _ | number _ | text _ => exact startsWith_plain (by simp)
  | name x =>
      refine ⟨_, _, rfl, by simp [word], fun h => ?_, fun h => absurd h (by simp [word])⟩
      have hx : x.text = "not" := congrArg Piece.value h
      exact absurd (by rw [hx]; decide) x.free
  | array _ _ | dict _ _ => exact startsWith_plain (by simp [mark, Lexeme.punctuationKind])
  | unary op a ih =>
      cases op with
      | not => exact ⟨_, _, rfl, by decide, fun _ => Nat.le_refl _, fun h => absurd h (by decide)⟩
      | neg => exact ⟨_, _, rfl, by decide, fun h => absurd h (by decide), fun _ => Nat.le_refl _⟩
      | pos => exact ⟨_, _, rfl, by decide, fun h => absurd h (by decide), fun _ => Nat.le_refl _⟩
  | binary op a b iha ihb =>
      cases op with
      | pow => exact (iha.wrapped.loosen (show Level.power.rank ≤ Level.suffix.rank by decide)).append _
      | _ => exact iha.wrapped.append _
  | relate op negated a b iha ihb => exact (iha.wrapped.append _).append _
  | compare a op b more iha ihb ih =>
      refine (iha.wrapped.loosen ?_).append _
      unfold firstLevel
      split <;> exact Nat.le_of_ble_eq_true rfl
  | choice a b c iha ihb ihc =>
      exact (ihb.wrapped.loosen (show Level.choice.rank ≤ Level.or.rank by decide)).append _
  | subscript a b iha ihb => exact iha.wrapped.append _
  | slice a b c d iha ihb ihc ihd => exact iha.wrapped.append _
  | call a args keywords iha ihargs ihkeywords =>
      refine (iha.wrapped.loosen ?_).append _
      unfold calleeLevel
      split <;> exact Nat.le_of_ble_eq_true rfl
  | filter a x members args keywords iha ihargs ihkeywords => exact iha.wrapped.append _

theorem startsWith_piecesAt (wanted : Level) (a : Expression) :
    StartsWith wanted (a.piecesAt wanted) :=
  a.startsWith_pieces.wrapped

end Expression

end Syntax

end Stencil
