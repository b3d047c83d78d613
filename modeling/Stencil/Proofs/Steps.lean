/-
**What readers do in one step.**

Many of the actions that read a template go on for as long as there is more to read: more items, operators,
suffixes, names or nodes.  This module names what each of them does once, and what is left to do where an
action has come to a choice.

Main definitions:

* `Stencil.Syntax.listStep`, `Stencil.Syntax.joinStep`, `Stencil.Syntax.chainStep`,
  `Stencil.Syntax.suffixStep`, `Stencil.Syntax.filterStep` — the loops of expressions;
* `Stencil.Syntax.nameStep`, `Stencil.Syntax.importStep`, `Stencil.Parse.nodeStep` — the loops of
  statements and nodes;
* `Stencil.Parse.rawBody` — what follows the start of a raw tag.

Main results:

* `Stencil.Syntax.items_eq`, `Stencil.Syntax.comparison_eq`, `Stencil.Syntax.loop_eq` and so on — the
  actions by their steps.
-/

import Stencil.Parser.Template

set_option autoImplicit false

namespace Stencil

namespace Syntax

open Parse

/-! ### Operators -/

/-- What a reader of operators of one level does after a left operand. -/
def joinStep (operator? : Parse (Option BinaryOp)) (operand : Parse Node) (left : Node) :
    Parse (Node ⊕ Node) := do
  match ← operator? with
  | some op => return .inl (Parse.binary op left (← operand))
  | none => return .inr left

/-- The reader of `or`. -/
def orOperator? : Parse (Option BinaryOp) := do
  return if ← skipSymbol "or" then some .or else none

/-- The reader of `and`. -/
def andOperator? : Parse (Option BinaryOp) := do
  return if ← skipSymbol "and" then some .and else none

/-- What the reader of comparisons does after the operands gathered so far. -/
def chainStep (g : Grammar) (chain : Node × List Node) : Parse ((Node × List Node) ⊕ Node) := do
  match ← comparisonOperator? with
  | some op =>
    let token ← expect .operator "comparison operator"
    let value ← Parse.sum g
    return .inl (chain.1, chain.2 ++ [.operand token.position op value])
  | none =>
    match ← within? with
    | some negated =>
      let right ← Parse.sum g
      return .inl (negatedIf negated (Parse.binary .within (gathered chain.1 chain.2) right), [])
    | none =>
      match ← is? with
      | some negated =>
        let right ← Parse.sum g
        return .inl (negatedIf negated (Parse.binary .test (gathered chain.1 chain.2) right), [])
      | none => return .inr (gathered chain.1 chain.2)

/-- What the reader of expressions does after the first operand. -/
def choiceEnd (g : Grammar) (body : Node) : Parse Node := do
  if ← skipSymbol "if" then
    let condition ← disjunction g
    let otherwise ← if ← skipSymbol "else" then some <$> g.expression else Pure.pure none
    return .choice body.position condition body otherwise
  return body

/-- What the reader of powers does after the base. -/
def powerEnd (g : Grammar) (base : Node) : Parse Node := do
  if ← skipValue .operator "**" then return Parse.binary .pow base (← g.unary)
  else return base

/-- What the reader of suffixes does after a node. -/
def suffixStep (g : Grammar) (n : Node) : Parse (Node ⊕ Node) := do
  match ← suffix? g n with
  | some n => return .inl n
  | none => return .inr n

theorem expression_eq (g : Grammar) : Parse.expression g = Parse.disjunction g >>= choiceEnd g := rfl

theorem disjunction_eq (g : Grammar) : Parse.disjunction g =
    Parse.conjunction g >>= iterate (joinStep orOperator? (Parse.conjunction g)) := rfl

theorem conjunction_eq (g : Grammar) : Parse.conjunction g =
    Parse.negation g >>= iterate (joinStep andOperator? (Parse.negation g)) := rfl

theorem comparison_eq (g : Grammar) : Parse.comparison g =
    Parse.sum g >>= fun first => iterate (chainStep g) (first, []) := rfl

theorem sum_eq (g : Grammar) : Parse.sum g =
    Parse.product g >>= iterate (joinStep sumOperator? (Parse.product g)) := rfl

theorem product_eq (g : Grammar) : Parse.product g =
    Parse.unary g >>= iterate (joinStep productOperator? (Parse.unary g)) := rfl

theorem power_eq (g : Grammar) : Parse.power g = Parse.primary g false >>= powerEnd g := rfl

theorem primary_eq (g : Grammar) :
    Parse.primary g false = Parse.atom g >>= iterate (suffixStep g) := rfl

/-! ### Lists with commas -/

/-- What the reader of a list in brackets does after some items. -/
def listStep {σ β : Type} (close : TokenKind) (what : String) (isEmpty : σ → Bool)
    (finish : σ → Bool → β) (one : σ → Parse (σ ⊕ β)) (items : σ) : Parse (σ ⊕ β) := do
  if ← skip close then return .inr (finish items false)
  if !isEmpty items then
    discard <| expect .comma what
    if ← skip close then return .inr (finish items true)
  one items

/-- What the reader of items adds. -/
def itemStep {β : Type} (g : Grammar) (isDict : Bool) (items : List Node) :
    Parse (List Node ⊕ β) := do
  return .inl (items ++ [← item g isDict])

theorem items_eq (g : Grammar) (close : TokenKind) (isDict : Bool) : items g close isDict =
    iterate (listStep close "`,` between items" List.isEmpty Prod.mk (itemStep g isDict)) [] := rfl

/-- Arguments that were read so far, positional and by keyword. -/
abbrev Gathered := List Node × List Node

/-- What the reader of arguments adds. -/
def argumentStep (g : Grammar) (read : Gathered) : Parse (Gathered ⊕ Gathered) := do
  return .inl (← argument g read.1 read.2)

theorem signature_eq (g : Grammar) : signature g = (do
    let opening ← expect .leftParen "`(`"
    let (positional, keywords) ← iterate (listStep .rightParen "`,` between arguments"
      (fun read : Gathered => read.1.isEmpty && read.2.isEmpty) (fun read _ => read)
      (argumentStep g)) (([], []) : Gathered)
    let keywords :=
      if keywords.isEmpty then [] else [Node.group .keywords opening.position keywords]
    return .sequence opening.position (positional ++ keywords)) := rfl

/-! ### Subscripts and filters -/

/-- What the reader of subscripts does after the second colon of a slice. -/
def sliceStep (g : Grammar) (p : Position) (start stop : Option Node) : Parse Node := do
  let step ←
    if ← skip .colon then
      if (← peekKind 0) = some .rightBracket then Pure.pure none else some <$> g.expression
    else Pure.pure none
  discard <| expect .rightBracket "`]`"
  return .slice p start stop step

/-- What the reader of subscripts does after the first colon of a slice. -/
def sliceStop (g : Grammar) (p : Position) (start : Option Node) : Parse Node := do
  let stop ←
    match ← peekKind 0 with
    | some .colon | some .rightBracket => Pure.pure none
    | _ => some <$> g.expression
  sliceStep g p start stop

/-- What the reader of subscripts does after the first expression. -/
def subscriptEnd (g : Grammar) (here : Position) (start : Option Node) : Parse Node := do
  match start, ← skip .colon with
  | some index, false =>
    discard <| expect .rightBracket "`]`"
    return index
  | start, _ => sliceStop g ((start.map Node.position).getD here) start

theorem subscript_eq (g : Grammar) : subscript g = (do
    let here := (← get).lexer.position
    let start ← if (← peekKind 0) = some .colon then Pure.pure none else some <$> g.expression
    subscriptEnd g here start) := rfl

/-- What the reader of the names of filters does after a part. -/
def filterStep (name : String) : Parse (String ⊕ String) := do
  if (← peekIs 0 .operator ".") then
    if (← peekKind 1) = some .symbol then
      discard Parse.next
      match ← Parse.next with
      | some part => return .inl (name ++ "." ++ part.value)
      | none => return .inl name
  return .inr name

theorem filterName_eq : filterName = (do
    let first ← expect .symbol "filter name"
    iterate filterStep first.value) := rfl

/-! ### Statements -/

/-- What the reader of conditions does after the first body. -/
def branchEnd (g : Grammar) (tag : Token) (condition body : Node) (closing : String) :
    Parse Node := do
  let otherwise ←
    if closing = "elif" ∨ closing = "elseif" then some <$> g.branch
    else if closing = "else" then do
      discard <| finish "else"
      let (otherwise, _) ← Parse.body g tag ["endif"]
      discard <| finish "endif"
      pure (some otherwise)
    else do
      discard <| finish "endif"
      pure none
  return .branch tag.position (tag.value == "ifAsync") condition body otherwise

theorem branch_eq (g : Grammar) : branch g = (do
    let tag ← expect .symbol "if"
    let condition ← g.expression
    discard <| blockEnd tag.value
    let (body, closing) ← Parse.body g tag ["elif", "elseif", "else", "endif"]
    branchEnd g tag condition body closing) := rfl

/-- What the reader of names does after some. -/
def nameStep (what : String) (names : List Node) : Parse (List Node ⊕ List Node) := do
  if ← skip .comma then return .inl (names ++ [← symbol what]) else return .inr names

theorem moreNames_eq (what : String) (first : Node) :
    moreNames what first = iterate (nameStep what) [first] := rfl

/-- What the reader of loops does after the first body. -/
def loopEnd (g : Grammar) (tag : Token) (mode : LoopMode) (endTag : String) (target source body : Node)
    (closing : String) : Parse Node := do
  let otherwise ←
    if closing = "else" then do
      discard <| finish "else"
      let (otherwise, _) ← Parse.body g tag [endTag]
      pure (some otherwise)
    else pure none
  discard <| finish endTag
  return .loop tag.position mode source target body otherwise

/-- What the reader of loops does after the target. -/
def loopRest (g : Grammar) (tag : Token) (mode : LoopMode) (endTag : String) (target : Node) :
    Parse Node := do
  if !(← skipSymbol "in") then failHere "expected \"in\" keyword for loop"
  let source ← g.expression
  discard <| blockEnd tag.value
  let (body, closing) ← body g tag ["else", endTag]
  loopEnd g tag mode endTag target source body closing

theorem loop_eq (g : Grammar) : loop g = (do
    let tag ← expect .symbol "for"
    let (mode, endTag) := loopMode tag.value
    let target ←
      match ← moreNames "loop variable" (← symbol "loop variable") with
      | [one] => pure one
      | names => pure (.group .array tag.position names)
    loopRest g tag mode endTag target) := rfl

/-- What the reader of imported names does after some. -/
def importStep (read : List ImportName × Option Bool) :
    Parse ((List ImportName × Option Bool) ⊕ (List ImportName × Option Bool)) := do
  if (← peekKind 0) = some .blockEnd then
    if read.1.isEmpty then failHere "expected at least one import name"
    discard <| blockEnd "from"
    return .inr (read.1, read.2)
  if !read.1.isEmpty then
    discard <| expect .comma "`,` between import names"
  let name ← importName
  let choice ← context?
  return .inl (read.1 ++ [name], choice.orElse fun _ => read.2)

theorem importNames_eq (g : Grammar) : importNames g = (do
    let tag ← expect .symbol "from"
    let template ← g.expression
    if !(← skipSymbol "import") then failHere "expected \"import\" keyword in from tag"
    let (names, withContext) ← iterate importStep (([], none) : List ImportName × Option Bool)
    return .importNames tag.position template names (withContext.getD false)) := rfl

/-- What the reader of calls with a body does after the parameters. -/
def callRest (g : Grammar) (tag : Token) (parameters : Node) : Parse Node := do
  match ← primary g false with
  | .call p callee arguments =>
    discard <| blockEnd "call"
    let (body, _) ← body g tag ["endcall"]
    discard <| finish "endcall"
    let caller := Node.definition tag.position .caller "caller" parameters body
    let arguments' := withCaller tag.position caller arguments.members
    return .output tag.position (.call p callee (.sequence arguments.position arguments'))
  | _ => failAt .notMacroCall tag.position

theorem callBlock_eq (g : Grammar) : callBlock g = (do
    let tag ← expect .symbol "call"
    let parameters ←
      if (← peekKind 0) = some .leftParen then parameters g else pure (.sequence tag.position [])
    callRest g tag parameters) := rfl

/-- What the reader of filters with a body does after the arguments. -/
def filterRest (g : Grammar) (tag : Token) (name : String) (more : List Node) : Parse Node := do
  discard <| blockEnd "filter"
  let (body, _) ← body g tag ["endfilter"]
  discard <| finish "endfilter"
  let arguments := Node.sequence tag.position (.capture tag.position body :: more)
  return .output tag.position (.filter tag.position name arguments)

theorem filterBlock_eq (g : Grammar) : filterBlock g = (do
    let tag ← expect .symbol "filter"
    let name ← filterName
    let more ←
      if (← peekKind 0) = some .leftParen then pure (← signature g).members else pure []
    filterRest g tag name more) := rfl

end Syntax

/-! ### Nodes and raw text -/

namespace Parse

/-- What the reader of nodes does after some nodes. -/
def nodeStep (g : Grammar) (hosts : List TagReader) (names : List String) (nodes : List Node) :
    Parse (List Node ⊕ List Node) := do
  match ← peek 0 with
  | none => return .inr nodes
  | some token =>
    match token.kind with
    | .blockStart =>
      modify fun p => { p with trimNext := false }
      let ends := (← peek 1).any fun t => t.kind = .symbol && names.contains t.value
      if ends then return .inr nodes
      discard next
      return .inl (nodes ++ [← statement g hosts])
    | .data => return .inl (nodes ++ (← text token))
    | .variableStart => return .inl (nodes ++ [← output g token])
    | .comment =>
      comment token
      return .inl nodes
    | _ => failAt (.strayToken token) token.position

theorem nodes_eq (g : Grammar) (hosts : List TagReader) (names : List String) :
    nodes g hosts names = iterate (nodeStep g hosts names) [] := rfl

/-- What follows the start of a raw tag. -/
def rawBody (tag : Token) : Parse Node := do
  let endTag := "end" ++ tag.value
  match (← get).buffer.head? with
  | some token => failAt (.tokenAfterRaw token tag.value) token.position
  | none =>
    match (← get).lexer.takeRaw endTag with
    | none => failAt (.missingEnd endTag tag.value tag.position.line) tag.position
    | some (text, lexer) =>
      let shown :=
        if (← get).trimNext then String.ofList (Text.trimStart text.text.toList) else text.text
      modify fun p => { p with lexer := lexer, trimNext := text.trimAfter }
      return .output tag.position (.text tag.position shown)

theorem raw_eq : raw = (do
    let tag ← expect .symbol "raw"
    discard <| blockEnd tag.value
    rawBody tag) := rfl

end Parse

end Stencil
