/-
**Printed templates.**

A template is a body: statements with texts before, between and after them, never two texts side by
side.  A statement with a body is printed as a tag, its body and the tag that ends it.  This module
says what the templates are, which tree each of them is read into, and how they are printed;
`Stencil.Proofs.Printing.Statements` proves that printing is undone by reading.

Main definitions:

* `Stencil.Syntax.Plain` — a text that no tag interrupts;
* `Stencil.Syntax.Statement`, `Stencil.Syntax.Body`, `Stencil.Syntax.Otherwise` — a statement, what
  stands between two tags, and what follows the body of a condition;
* `Stencil.Syntax.Statement.node`, `Stencil.Syntax.Body.nodes` — their trees;
* `Stencil.Syntax.Statement.pieces`, `Stencil.Syntax.Body.pieces` — how they are printed.

Main result:

* `Stencil.Syntax.Body.lexes` — what is printed alternates between tags and texts.
-/

import Stencil.Proofs.Printing.Nodes
import Stencil.Proofs.Printing.Terms

set_option autoImplicit false

namespace Stencil.Syntax

open Piece (mark word)

/-! ### Templates -/

/-- A text that no tag interrupts. -/
structure Plain where
  text : String
  ne_empty : text ≠ ""
  noBrace : '\x7b' ∉ text.toList

/-- A name that other templates can import. -/
structure Public extends Name where
  isPublic : text.toList.head? ≠ some '_'

/-- Names with the names that they get where they are imported. -/
structure Import where
  name : Public
  newName : Option Name

/-- Parameters: names, and names with defaults. -/
structure Parameters where
  positional : List Name
  defaults : List (Name × Expression)

/-- Arguments, positional and by keyword. -/
structure Arguments where
  positional : List Expression
  keywords : List (Name × Expression)

mutual

/-- A statement that can be printed. -/
inductive Statement where
  | output (a : Expression)
  | branch (suspends : Bool) (condition : Expression) (body : Body) (otherwise : Otherwise)
  | loop (mode : LoopMode) (target : Name) (more : List Name) (source : Expression) (body : Body)
      (otherwise : Option Body)
  | assign (target : Name) (more : List Name) (value : Expression)
  | capture (target : Name) (more : List Name) (body : Body)
  | definition (name : Name) (parameters : Parameters) (body : Body)
  /-- A call with a body, which may have parameters. -/
  | call (parameters : Parameters) (callee : Expression) (arguments : Arguments) (body : Body)
  /-- The name may be said again at the end. -/
  | block (name : Name) (again : Bool) (body : Body)
  | filter (name : Word) (members : List Word) (arguments : Arguments) (body : Body)
  | embed (template : Expression) (ignoreMissing : Bool)
  | extend (template : Expression)
  | importAll (template : Expression) (target : Name) (withContext : Bool)
  | importNames (template : Expression) (first : Import) (more : List Import) (withContext : Bool)

/-- What stands between two tags: statements with texts between them. -/
inductive Body where
  | done (last : Option Plain)
  | more (before : Option Plain) (one : Statement) (rest : Body)

/-- What follows the body of a condition. -/
inductive Otherwise where
  | nothing
  | last (body : Body)
  | elif (condition : Expression) (body : Body) (otherwise : Otherwise)

end

/-! ### Trees -/

/-- The trees of names. -/
def nameNodes (xs : List Name) : List Node := xs.map fun x => .symbol .start x.text

/-- The tree of arguments, with the keywords last. -/
def Arguments.nodes (a : Arguments) : List Node :=
  Expression.nodes a.positional ++ keywordGroup (Expression.keywordNodes a.keywords)

/-- Parameters as the arguments that they are written as. -/
def Parameters.arguments (a : Parameters) : Arguments := ⟨a.positional.map .name, a.defaults⟩

/-- The tree of a text. -/
def textNodes (s : Option Plain) : List Node :=
  s.toList.map fun s => .output .start (.text .start s.text)

/-- A name that is imported, and the name it gets. -/
def Import.imported (a : Import) : ImportName :=
  ⟨a.name.text, a.newName.map fun x => x.text⟩

/-- The target of a loop: a name, or several as an array. -/
def targetNode (x : Name) : List Name → Node
  | [] => .symbol .start x.text
  | more => .group .array .start (nameNodes (x :: more))

mutual

/-- The tree of a statement. -/
def Statement.node : Statement → Node
  | .output a => .output .start a.node
  | .branch suspends a b c =>
    .branch .start suspends a.node (.sequence .start b.nodes) c.node
  | .loop mode x more a b c =>
    .loop .start mode a.node (targetNode x more) (.sequence .start b.nodes) (bodyNode c)
  | .assign x more a => .assign .start (nameNodes (x :: more)) (some a.node) none
  | .capture x more b =>
    .assign .start (nameNodes (x :: more)) none (some (.capture .start (.sequence .start b.nodes)))
  | .definition x parameters b =>
    .definition .start .named x.text (.sequence .start parameters.arguments.nodes)
      (.sequence .start b.nodes)
  | .call parameters a arguments b =>
    let caller := Node.definition .start .caller "caller"
      (.sequence .start parameters.arguments.nodes) (.sequence .start b.nodes)
    .output .start (.call .start a.node (.sequence .start (Expression.nodes arguments.positional ++
      [.group .keywords .start (Expression.keywordNodes arguments.keywords ++
        [.pair .start (.symbol .start "caller") caller])])))
  | .block x _ b => .block .start x.text (.sequence .start b.nodes)
  | .filter x members arguments b =>
    .output .start (.filter .start (dottedName x members)
      (.sequence .start (.capture .start (.sequence .start b.nodes) :: arguments.nodes)))
  | .embed a ignoreMissing => .embed .start a.node ignoreMissing
  | .extend a => .extend .start a.node
  | .importAll a x withContext => .importAll .start a.node x.text withContext
  | .importNames a x more withContext =>
    .importNames .start a.node ((x :: more).map Import.imported) withContext

/-- The trees of a body. -/
def Body.nodes : Body → List Node
  | .done s => textNodes s
  | .more s a rest => textNodes s ++ a.node :: rest.nodes

/-- The tree of what follows the body of a condition. -/
def Otherwise.node : Otherwise → Option Node
  | .nothing => none
  | .last b => some (.sequence .start b.nodes)
  | .elif a b c => some (.branch .start false a.node (.sequence .start b.nodes) c.node)

/-- The tree of a body that may be missing. -/
def bodyNode : Option Body → Option Node
  | none => none
  | some b => some (.sequence .start b.nodes)

end

/-! ### Pieces -/

/-- Names with commas between them. -/
def namePieces (x : Name) (more : List Name) : List Piece :=
  word x.text :: more.flatMap fun y => [mark ",", word y.text]

/-- Arguments in parentheses. -/
def Arguments.pieces (a : Arguments) : List Piece :=
  parenthesized (separated (Expression.each a.positional ++ Expression.eachKeyword a.keywords))

/-- Arguments in parentheses, if there are any. -/
def Arguments.optional (a : Arguments) : List Piece :=
  if a.positional.isEmpty && a.keywords.isEmpty then [] else a.pieces

/-- What is called with a body. -/
def called (a : Expression) (arguments : Arguments) : Expression :=
  .call a arguments.positional arguments.keywords

/-- The parameters of the body of a call.  They may be left out if there are none and nothing else
could be taken for them. -/
def callerPieces (parameters : Parameters) (call : List Piece) : List Piece :=
  if (call.head?.map Piece.kind) = some .leftParen then parameters.arguments.pieces
  else parameters.arguments.optional

/-- The name of the tag of a condition. -/
def conditionTag (suspends : Bool) : String := if suspends then "ifAsync" else "if"

/-- The names of the tags that start and end a loop. -/
def loopTags : LoopMode → String × String
  | .plain => ("for", "endfor")
  | .each => ("asyncEach", "endeach")
  | .all => ("asyncAll", "endall")

/-- The choice of the context of an import. -/
def contextPieces (withContext : Bool) : List Piece :=
  if withContext then [word "with", word "context"] else []

/-- A name that is imported. -/
def Import.pieces (a : Import) : List Piece :=
  word a.name.text :: (match a.newName with
    | none => []
    | some x => [word "as", word x.text])

/-- Imports with commas between them. -/
def importPieces (a : Import) (more : List Import) : List Piece :=
  a.pieces ++ more.flatMap fun b => mark "," :: b.pieces

/-- A text, if it is there. -/
def textPieces (s : Option Plain) : List Piece := s.toList.map fun s => ⟨.data, s.text⟩

mutual

/-- A statement as it is printed. -/
def Statement.pieces : Statement → List Piece
  | .output a => printed a.pieces
  | .branch suspends a b c =>
    tag (word (conditionTag suspends) :: a.pieces) ++ (b.pieces ++ c.pieces)
  | .loop mode x more a b c =>
    tag (word (loopTags mode).1 :: (namePieces x more ++ word "in" :: a.pieces)) ++
      (b.pieces ++ (elsePieces c ++ tag [word (loopTags mode).2]))
  | .assign x more a => tag (word "set" :: (namePieces x more ++ mark "=" :: a.pieces))
  | .capture x more b => tag (word "set" :: namePieces x more) ++ (b.pieces ++ tag [word "endset"])
  | .definition x parameters b =>
    tag (word "macro" :: word x.text :: parameters.arguments.pieces) ++
      (b.pieces ++ tag [word "endmacro"])
  | .call parameters a arguments b =>
    tag (word "call" :: (callerPieces parameters (called a arguments).pieces ++
      (called a arguments).pieces)) ++ (b.pieces ++ tag [word "endcall"])
  | .block x again b =>
    tag [word "block", word x.text] ++
      (b.pieces ++ tag (word "endblock" :: if again then [word x.text] else []))
  | .filter x members arguments b =>
    tag (word "filter" :: (dotted x members ++ arguments.optional)) ++
      (b.pieces ++ tag [word "endfilter"])
  | .embed a ignoreMissing =>
    tag (word "include" :: (a.pieces ++
      if ignoreMissing then [word "ignore", word "missing"] else []))
  | .extend a => tag (word "extends" :: a.pieces)
  | .importAll a x withContext =>
    tag (word "import" :: (a.pieces ++ word "as" :: word x.text :: contextPieces withContext))
  | .importNames a x more withContext =>
    tag (word "from" :: (a.pieces ++ word "import" ::
      (importPieces x more ++ contextPieces withContext)))

/-- A body as it is printed. -/
def Body.pieces : Body → List Piece
  | .done s => textPieces s
  | .more s a rest => textPieces s ++ (a.pieces ++ rest.pieces)

/-- What follows the body of a condition, with the end of the condition. -/
def Otherwise.pieces : Otherwise → List Piece
  | .nothing => tag [word "endif"]
  | .last b => tag [word "else"] ++ (b.pieces ++ tag [word "endif"])
  | .elif a b c => tag (word "elif" :: a.pieces) ++ (b.pieces ++ c.pieces)

/-- What a loop does without items, as it is printed. -/
def elsePieces : Option Body → List Piece
  | none => []
  | some b => tag [word "else"] ++ b.pieces

end

/-- A template that consists of a body. -/
def Body.source (b : Body) : String := String.ofList (Piece.writtenAll b.pieces)

/-! ### What is printed alternates between tags and texts -/

/-- A name can stand inside of a tag. -/
theorem inner_word (x : Word) : (word x.text).Inner := .word x.isSymbol

/-- The words of tags. -/
def tagWords : List String :=
  ["if", "ifAsync", "elif", "else", "endif", "for", "endfor", "asyncEach", "endeach", "asyncAll",
    "endall", "in", "set", "endset", "macro", "endmacro", "call", "endcall", "block", "endblock",
    "filter", "endfilter", "include", "ignore", "missing", "extends", "import", "as", "with",
    "context", "from"]

/-- The words of tags can stand inside of them. -/
theorem inner_tagWord {s : String} (h : s ∈ tagWords) : (word s).Inner := by
  have hall : ∀ s ∈ tagWords, Lexeme.wordKind? s.toList = some .symbol := by decide
  exact .word (hall s h)

theorem inside_names (x : Name) (more : List Name) : Inside (namePieces x more) := by
  refine .cons (inner_word x.toWord) fun t ht => ?_
  obtain ⟨y, _, hy⟩ := List.mem_flatMap.1 ht
  exact Inside.cons (.mark (by decide)) (.single (inner_word y.toWord)) t hy

theorem Arguments.inside_pieces (a : Arguments) : Inside a.pieces :=
  Expression.inside_arguments (fun e _ => e.inside_pieces) fun e _ => e.2.inside_pieces

theorem Arguments.inside_optional (a : Arguments) : Inside a.optional := by
  unfold optional
  split
  · exact .nil
  · exact a.inside_pieces

theorem inside_callerPieces (parameters : Parameters) (call : List Piece) :
    Inside (callerPieces parameters call) := by
  unfold callerPieces
  split
  · exact parameters.arguments.inside_pieces
  · exact parameters.arguments.inside_optional

theorem inside_contextPieces (withContext : Bool) : Inside (contextPieces withContext) := by
  cases withContext with
  | false => exact .nil
  | true => exact .cons (inner_tagWord (by decide)) (.single (inner_tagWord (by decide)))

theorem Import.inside_pieces (a : Import) : Inside a.pieces := by
  refine .cons (inner_word a.name.toWord) ?_
  cases a.newName with
  | none => exact .nil
  | some x => exact .cons (inner_tagWord (by decide)) (.single (inner_word x.toWord))

theorem inside_importPieces (a : Import) (more : List Import) : Inside (importPieces a more) := by
  refine a.inside_pieces.append fun t ht => ?_
  obtain ⟨b, _, hb⟩ := List.mem_flatMap.1 ht
  exact Inside.cons (.mark (by decide)) b.inside_pieces t hb

theorem noText_tag (ts us : List Piece) : NoText (tag ts ++ us) := by
  rintro _ ⟨⟩
  exact .inl rfl

theorem noText_printed (ts us : List Piece) : NoText (printed ts ++ us) := by
  rintro _ ⟨⟩
  exact .inr rfl

/-- A statement starts with a tag or an output. -/
theorem Statement.noText (a : Statement) (us : List Piece) : NoText (a.pieces ++ us) := by
  cases a <;> first | exact noText_printed _ _ | (rw [pieces, List.append_assoc]; exact noText_tag _ _) | exact noText_tag _ _

theorem Statement.pieces_ne_nil (a : Statement) : a.pieces ≠ [] := by
  cases a <;> simp [pieces, printed, tag]

theorem Otherwise.noText (a : Otherwise) (us : List Piece) : NoText (a.pieces ++ us) := by
  cases a with
  | nothing => exact noText_tag _ _
  | last b => rw [pieces, List.append_assoc]; exact noText_tag _ _
  | elif a b c => rw [pieces, List.append_assoc]; exact noText_tag _ _

/-- A body between two tags. -/
theorem lexes_between {ts us vs ws : List Piece} (hts : Inside ts) (hvs : Inside vs)
    (hws : Piece.Lexes false ws)
    (hus : ∀ {us' : List Piece}, Piece.Lexes false us' → NoText us' → Piece.Lexes false (us ++ us')) :
    Piece.Lexes false (tag ts ++ (us ++ tag vs) ++ ws) := by
  rw [List.append_assoc, List.append_assoc]
  exact lexes_tag hts (hus (lexes_tag hvs hws) (noText_tag _ _))

theorem lexes_textPieces (s : Option Plain) {us : List Piece} (hus : Piece.Lexes false us)
    (htext : NoText us) : Piece.Lexes false (textPieces s ++ us) := by
  cases s with
  | none => exact hus
  | some s => exact lexes_text s.ne_empty s.noBrace hus htext

mutual

theorem Statement.lexes (a : Statement) {us : List Piece} (hus : Piece.Lexes false us) :
    Piece.Lexes false (a.pieces ++ us) := by
  -- Each tag is lexed by itself.  A body is lexed together with what follows it, which must not begin with
  -- text: text next to text would be one piece.
  match a with
  | .output a => exact lexes_printed a.inside_pieces hus
  | .branch suspends a b c =>
      rw [Statement.pieces, List.append_assoc, List.append_assoc]
      refine lexes_tag (.cons ?_ a.inside_pieces) (b.lexes (c.lexes hus) (c.noText _))
      cases suspends <;> exact inner_tagWord (by decide)
  | .loop mode x more a b c =>
      rw [Statement.pieces, List.append_assoc, List.append_assoc, List.append_assoc]
      have hend : Piece.Lexes false (tag [word (loopTags mode).2] ++ us) := by
        cases mode <;> exact lexes_tag (.single (inner_tagWord (by decide))) hus
      have hstart : (word (loopTags mode).1).Inner := by
        cases mode <;> exact inner_tagWord (by decide)
      refine lexes_tag (.cons hstart ((inside_names x more).append
        (.cons (inner_tagWord (by decide)) a.inside_pieces))) ?_
      match c with
      | none => exact b.lexes hend (noText_tag _ _)
      | some c =>
          rw [elsePieces, List.append_assoc]
          exact b.lexes (lexes_tag (.single (inner_tagWord (by decide)))
            (c.lexes hend (noText_tag _ _))) (noText_tag _ _)
  | .assign x more a =>
      exact lexes_tag (.cons (inner_tagWord (by decide)) ((inside_names x more).append
        (.cons (.mark (by decide)) a.inside_pieces))) hus
  | .capture x more b =>
      exact lexes_between (.cons (inner_tagWord (by decide)) (inside_names x more))
        (.single (inner_tagWord (by decide))) hus b.lexes
  | .definition x parameters b =>
      exact lexes_between (.cons (inner_tagWord (by decide)) (.cons (inner_word x.toWord)
        parameters.arguments.inside_pieces)) (.single (inner_tagWord (by decide))) hus b.lexes
  | .call parameters a arguments b =>
      exact lexes_between (.cons (inner_tagWord (by decide)) ((inside_callerPieces _ _).append
        (called a arguments).inside_pieces)) (.single (inner_tagWord (by decide))) hus b.lexes
  | .block x again b =>
      refine lexes_between (.cons (inner_tagWord (by decide)) (.single (inner_word x.toWord)))
        (.cons (inner_tagWord (by decide)) ?_) hus b.lexes
      cases again with
      | false => exact .nil
      | true => exact .single (inner_word x.toWord)
  | .filter x members arguments b =>
      exact lexes_between (.cons (inner_tagWord (by decide)) ((Inside.dotted x members).append
        arguments.inside_optional)) (.single (inner_tagWord (by decide))) hus b.lexes
  | .embed a ignoreMissing =>
      refine lexes_tag (.cons (inner_tagWord (by decide)) (a.inside_pieces.append ?_)) hus
      cases ignoreMissing with
      | false => exact .nil
      | true => exact .cons (inner_tagWord (by decide)) (.single (inner_tagWord (by decide)))
  | .extend a => exact lexes_tag (.cons (inner_tagWord (by decide)) a.inside_pieces) hus
  | .importAll a x withContext =>
      exact lexes_tag (.cons (inner_tagWord (by decide)) (a.inside_pieces.append
        (.cons (inner_tagWord (by decide)) (.cons (inner_word x.toWord)
          (inside_contextPieces withContext))))) hus
  | .importNames a x more withContext =>
      exact lexes_tag (.cons (inner_tagWord (by decide)) (a.inside_pieces.append
        (.cons (inner_tagWord (by decide)) ((inside_importPieces x more).append
          (inside_contextPieces withContext))))) hus

theorem Body.lexes (b : Body) {us : List Piece} (hus : Piece.Lexes false us) (htext : NoText us) :
    Piece.Lexes false (b.pieces ++ us) := by
  match b with
  | .done s => exact lexes_textPieces s hus htext
  | .more s a rest =>
      rw [Body.pieces, List.append_assoc, List.append_assoc]
      exact lexes_textPieces s (a.lexes (rest.lexes hus htext)) (a.noText _)

theorem Otherwise.lexes (c : Otherwise) {us : List Piece} (hus : Piece.Lexes false us) :
    Piece.Lexes false (c.pieces ++ us) := by
  match c with
  | .nothing => exact lexes_tag (.single (inner_tagWord (by decide))) hus
  | .last b =>
      rw [Otherwise.pieces, List.append_assoc, List.append_assoc]
      exact lexes_tag (.single (inner_tagWord (by decide)))
        (b.lexes (lexes_tag (.single (inner_tagWord (by decide))) hus) (noText_tag _ _))
  | .elif a b c =>
      rw [Otherwise.pieces, List.append_assoc, List.append_assoc]
      exact lexes_tag (.cons (inner_tagWord (by decide)) a.inside_pieces)
        (b.lexes (c.lexes hus) (c.noText _))

end

end Stencil.Syntax
