/-
**Reading expressions.**

From loosest to tightest: the conditional expression, `or`, `and`, `not`, the chain of comparisons,
`in` and `is`, then `+ - ~`, then `* / // %`, then the signs, then `**`, then what follows a
literal, a name or a bracket: calls, subscripts, members and filters.

Main definitions:

* `Stencil.Parse.expression` — an expression;
* `Stencil.Parse.comparison` — the chain of comparisons;
* `Stencil.Parse.primary` — a literal, a name or something in brackets, with what follows it;
* `Stencil.Parse.signature` — arguments in parentheses.
-/

import Stencil.Decimal.Reading
import Stencil.Parser.Grammar

set_option autoImplicit false

namespace Stencil.Parse

variable (g : Grammar)

/-! ### Literals and brackets -/

/-- The integer that a token writes. -/
def integer (token : Token) : Parse Node :=
  let n := Decimal.natOfDigits token.value.toList
  if n < Nat.pow 2 63 then return .literal token.position (.int n)
  else failAt .integerTooLarge token.position

/-- The float that digits with a point write. -/
def floatOfDigits (s : List Char) : Float :=
  let whole := s.takeWhile (· != '.')
  let fraction := (s.dropWhile (· != '.')).drop 1
  Decimal.ofScientific (Decimal.natOfDigits (whole ++ fraction)) (-(fraction.length : Int))

/-- One item of something in brackets: a pair of a key and a value, or an expression.  A key that is
a name stands for itself. -/
def item (isDict : Bool) : Parse Node := do
  if isDict then
    let key ← g.primary true
    let key :=
      match key with
      | .symbol p name => Node.stringLiteral p name
      | key => key
    discard <| expect .colon "`:` after dict key"
    let value ← g.expression
    return .pair key.position key value
  else g.expression

/-- The items of something in brackets up to its end, and whether a comma is the last token before
the end. -/
def items (close : TokenKind) (isDict : Bool) : Parse (List Node × Bool) :=
  iterate (fun (items : List Node) => do
    if ← skip close then return .inr (items, false)
    if !items.isEmpty then
      discard <| expect .comma "`,` between items"
      if ← skip close then return .inr (items, true)
    return .inl (items ++ [← item g isDict])) []

/-- Something in brackets, of which the first is taken.  One expression in parentheses stands for
itself unless a comma follows it. -/
def bracketed (opening : Token) : Parse Node := do
  match opening.kind with
  | .leftParen =>
    match ← items g .rightParen false with
    | ([one], false) => return one
    | (items, _) => return .group .array opening.position items
  | .leftBracket =>
    let (items, _) ← items g .rightBracket false
    return .group .array opening.position items
  | _ =>
    let (items, _) ← items g .rightCurly true
    return .group .dict opening.position items

/-- A literal, a name or something in brackets. -/
def atom : Parse Node := do
  match ← next with
  | none => endOfFile "expression"
  | some token =>
    let literal (value : Literal) : Parse Node := return .literal token.position value
    match token.kind with
    | .string => literal (.string token.value)
    | .int => integer token
    | .float => literal (.float (floatOfDigits token.value.toList))
    | .boolean => literal (.bool (token.value == "true"))
    | .nothing => literal .none
    | .pattern =>
      let (body, flags) := token.patternParts.getD ("", "")
      literal (.pattern body flags)
    | .symbol => return .symbol token.position token.value
    | .leftParen | .leftBracket | .leftCurly => bracketed g token
    | _ => failAt (.notExpression token) token.position

/-! ### Arguments, subscripts and filters -/

/-- One argument after those read so far, positional and by keyword. -/
def argument (positional keywords : List Node) : Parse (List Node × List Node) := do
  let argument ← g.expression
  if ← skipValue .operator "=" then
    if argument.asSymbol?.isNone then failAt .keywordName argument.position
    let value ← g.expression
    return (positional, keywords ++ [.pair argument.position argument value])
  else if !keywords.isEmpty then failAt .positionalAfterKeyword argument.position
  else return (positional ++ [argument], keywords)

/-- Arguments in parentheses: a sequence of the positional ones, with the keywords last. -/
def signature : Parse Node := do
  let opening ← expect .leftParen "`(`"
  let (positional, keywords) ← iterate (fun (positional, keywords) => do
    if ← skip .rightParen then return .inr (positional, keywords)
    if !(positional.isEmpty && keywords.isEmpty) then
      discard <| expect .comma "`,` between arguments"
      if ← skip .rightParen then return .inr (positional, keywords)
    return .inl (← argument g positional keywords)) (([], []) : List Node × List Node)
  let keywords :=
    if keywords.isEmpty then [] else [Node.group .keywords opening.position keywords]
  return .sequence opening.position (positional ++ keywords)

/-- What stands between square brackets, up to the closing one: an index or a slice. -/
def subscript : Parse Node := do
  let here := (← get).lexer.position
  let start ←
    if (← peekKind 0) = some .colon then pure none else some <$> g.expression
  match start, ← skip .colon with
  | some index, false =>
    discard <| expect .rightBracket "`]`"
    return index
  | start, _ =>
    let stop ←
      match ← peekKind 0 with
      | some .colon | some .rightBracket => pure none
      | _ => some <$> g.expression
    let step ←
      if ← skip .colon then
        if (← peekKind 0) = some .rightBracket then pure none else some <$> g.expression
      else pure none
    discard <| expect .rightBracket "`]`"
    return .slice ((start.map Node.position).getD here) start stop step

/-- The name of a filter: symbols with points between them. -/
def filterName : Parse String := do
  let first ← expect .symbol "filter name"
  iterate (fun name => do
    if (← peekIs 0 .operator ".") then
      if (← peekKind 1) = some .symbol then
        discard next
        match ← next with
        | some part => return .inl (name ++ "." ++ part.value)
        | none => return .inl name
    return .inr name) first.value

/-- What follows a point: a name or a number. -/
def member : Parse Node := do
  match ← next with
  | none => endOfFile "name as lookup value"
  | some token =>
    match token.kind with
    | .symbol => return .stringLiteral token.position token.value
    | .int => integer token
    | _ => failAt (.wanted "expected name as lookup value" token) token.position

/-- What follows a node, if it is a call, a subscript, a member or a filter. -/
def suffix? (n : Node) : Parse (Option Node) := do
  let point ← peekIs 0 .operator "."
  match ← peekKind 0 with
  | some .leftParen => return some (.call n.position n (← signature g))
  | some .leftBracket =>
    discard next
    return some (.lookup n.position n (← subscript g))
  | some .pipe =>
    discard next
    let name ← filterName
    let more ←
      if (← peekKind 0) = some .leftParen then pure (← signature g).members else pure []
    return some (.filter n.position name (.sequence n.position (n :: more)))
  | _ =>
    if point then
      discard next
      return some (.lookup n.position n (← member))
    else return none

/-- A literal, a name or something in brackets, with the calls, subscripts, members and filters
that follow it unless told not to read them. -/
def primary (bare : Bool) : Parse Node := do
  let n ← atom g
  if bare then return n
  iterate (fun n => do
    match ← suffix? g n with
    | some n => return .inl n
    | none => return .inr n) n

/-! ### Operators -/

/-- Two operands with an operator between them, at the place of the left one. -/
def binary (op : BinaryOp) (left right : Node) : Node := .binary left.position op left right

/-- Operands with operators of one level between them, the left ones first. -/
def leftAssociative (operator? : Parse (Option BinaryOp)) (operand : Parse Node) : Parse Node := do
  let first ← operand
  iterate (fun left => do
    match ← operator? with
    | some op => return .inl (binary op left (← operand))
    | none => return .inr left) first

/-- A power; its exponent may have a sign or be a power. -/
def power : Parse Node := do
  let base ← primary g false
  if ← skipValue .operator "**" then return binary .pow base (← g.unary)
  else return base

/-- A power with signs before it. -/
def unary : Parse Node := do
  let op :=
    match ← peek 0 with
    | some token =>
      if token.is .operator "-" then some UnaryOp.neg
      else if token.is .operator "+" then some UnaryOp.pos
      else none
    | none => none
  match op with
  | some op =>
    let token ← expect .operator "unary operator"
    return .unary token.position op (← g.unary)
  | none => power g

/-- The operators that bind tighter than `+`. -/
def productOperator? : Parse (Option BinaryOp) := do
  if ← skipValue .operator "*" then return some .mul
  if ← skipValue .operator "//" then return some .floorDiv
  if ← skipValue .operator "/" then return some .div
  if ← skipValue .operator "%" then return some .mod
  return none

/-- The operators that bind tighter than comparisons. -/
def sumOperator? : Parse (Option BinaryOp) := do
  if ← skipValue .operator "+" then return some .add
  if ← skipValue .operator "-" then return some .sub
  if ← skip .tilde then return some .concat
  return none

/-- A product. -/
def product : Parse Node := leftAssociative productOperator? (unary g)

/-- A sum. -/
def sum : Parse Node := leftAssociative sumOperator? (product g)

/-- The comparisons gathered behind a first operand, as one node. -/
def gathered (first : Node) (operands : List Node) : Node :=
  if operands.isEmpty then first else .compare first.position first operands

/-- A node, negated if so told. -/
def negatedIf (negated : Bool) (n : Node) : Node :=
  if negated then .unary n.position .not n else n

/-- The comparison operator that is next, if one is. -/
def comparisonOperator? : Parse (Option Comparison) := do
  return (← peek 0).bind fun token =>
    if token.kind = .operator then Comparison.ofOperator? token.value else none

/-- `in` or `not in` is taken if it is next; whether it is negated. -/
def within? : Parse (Option Bool) := do
  let negated ←
    if ← peekIs 0 .symbol "not" then peekIs 1 .symbol "in" else pure false
  if negated then
    discard next
    discard next
    return some true
  if ← skipSymbol "in" then return some false
  return none

/-- `is` or `is not` is taken if it is next; whether it is negated. -/
def is? : Parse (Option Bool) := do
  if ← skipSymbol "is" then return some (← skipSymbol "not")
  return none

/-- Comparisons, `in` and `is` form one chain, the left ones first.  Comparisons that follow each
other are one node; `in` and `is` end it and take it as their left operand. -/
def comparison : Parse Node := do
  let first ← sum g
  iterate (fun (first, operands) => do
    match ← comparisonOperator? with
    | some op =>
      let token ← expect .operator "comparison operator"
      let value ← sum g
      return .inl (first, operands ++ [.operand token.position op value])
    | none =>
      match ← within? with
      | some negated =>
        let right ← sum g
        return .inl (negatedIf negated (binary .within (gathered first operands) right), [])
      | none =>
        match ← is? with
        | some negated =>
          let right ← sum g
          return .inl (negatedIf negated (binary .test (gathered first operands) right), [])
        | none => return .inr (gathered first operands)) (first, ([] : List Node))

/-- A chain of comparisons with `not` before it. -/
def negation : Parse Node := do
  let here := (← peek 0).map Token.position
  if ← skipSymbol "not" then
    let target ← g.negation
    return .unary (here.getD target.position) .not target
  comparison g

/-- Operands with `and` between them. -/
def conjunction : Parse Node :=
  leftAssociative (do return if ← skipSymbol "and" then some .and else none) (negation g)

/-- Operands with `or` between them. -/
def disjunction : Parse Node :=
  leftAssociative (do return if ← skipSymbol "or" then some .or else none) (conjunction g)

/-- An expression: operands with `or` between them, and the condition that may follow them. -/
def expression : Parse Node := do
  let body ← disjunction g
  if ← skipSymbol "if" then
    let condition ← disjunction g
    let otherwise ← if ← skipSymbol "else" then some <$> g.expression else pure none
    return .choice body.position condition body otherwise
  return body

end Stencil.Parse
